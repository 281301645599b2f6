import PulseSequencer.DependencyGraph
import PulseSequencer.Formula.Evaluator

/-
# PulseSequencer.Program.ParameterTable -- global values that follow from others

A global has a value and perhaps a formula over other globals.  Writing one
evaluates the formulas of all that depend on it, dependencies first.
-/

namespace PulseSequencer

set_option autoImplicit false

/-- The value of a formula as a quantity. -/
def Formula.evaluateQuantity (text : String) (globals : Table String Quantity) :
    Except FormulaError Quantity := do
  let r ← Formula.Evaluator.default.evaluate text (Formula.Scope.ofQuantities globals)
  match r.value with
  | .quantity q => return q
  | other => return .plain (← other.toFloat "value")

inductive ParameterError where
  | formula (error : FormulaError)
  | cycle (cycle : DependencyCycle)

def ParameterError.message : ParameterError → String
  | .formula e => e.message
  | .cycle c => c.message

structure ParameterTable where
  values : Table String Quantity := Table.empty
  formulas : Table String String := Table.empty
  graph : DependencyGraph := DependencyGraph.empty

namespace ParameterTable

def empty : ParameterTable := {}

def get? (t : ParameterTable) (name : String) : Option Quantity := t.values.get? name

def formula? (t : ParameterTable) (name : String) : Option String := t.formulas.get? name

/-- Whether a name already holds a value, up to the digits that count. -/
def holds (t : ParameterTable) (name : String) (value : Quantity) : Bool :=
  match t.get? name with
  | some old => old.same value
  | none => false

def write (t : ParameterTable) (name : String) (value : Quantity) : ParameterTable :=
  { t with values := t.values.insert name value }

/-- The outcome of a change: the table, which an error may leave half changed,
and the names whose values are new. -/
abbrev Outcome := ParameterTable × Except ParameterError (List String)

/-- Evaluates the formulas of the names in order; stops at the first error. -/
def refresh (t : ParameterTable) (updated : List String) : List String → Outcome
  | [] => (t, .ok updated)
  | name :: rest =>
      match t.formula? name with
      | none => t.refresh updated rest
      | some text =>
          match Formula.evaluateQuantity text t.values with
          | .error e => (t, .error (.formula e))
          | .ok value =>
              if t.holds name value then t.refresh updated rest
              else (t.write name value).refresh (updated ++ [name]) rest

/-- Brings everything that depends on a name up to date. -/
def propagate (t : ParameterTable) (changed : String) : Outcome :=
  t.refresh [changed] (t.graph.propagationOrder changed)

/-- Gives a name a value of its own. -/
def setValue (t : ParameterTable) (name : String) (value : Quantity) : Outcome :=
  ({ values := t.values.insert name value
     formulas := t.formulas.erase name
     graph := t.graph.clearDependencies name } : ParameterTable).propagate name

/-- Defines a name by a formula. -/
def setFormula (t : ParameterTable) (name text : String) : Outcome :=
  match Formula.Evaluator.default.evaluate text (Formula.Scope.ofQuantities t.values) with
  | .error e => (t, .error (.formula e))
  | .ok evaluation =>
      match t.graph.setDependencies name evaluation.dependencies with
      | (graph, .error cycle) => ({ t with graph }, .error (.cycle cycle))
      | (graph, .ok ()) =>
          let t := { t with graph }
          match Formula.evaluateQuantity text t.values with
          | .error e => (t, .error (.formula e))
          | .ok value =>
              { (t.write name value) with formulas := t.formulas.insert name text }.propagate name

end ParameterTable

end PulseSequencer
