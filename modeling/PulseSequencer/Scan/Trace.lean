import PulseSequencer.Formula.Evaluator
import PulseSequencer.Scan.Error

/-
# PulseSequencer.Scan.Trace -- from records to plotted points
-/

namespace PulseSequencer

set_option autoImplicit false

/-- What a record tells a scan. -/
structure Measurement where
  /-- The counts of every channel. -/
  counts : List (List UInt64) := []
  /-- The number of timestamps of every channel. -/
  timestampCounts : List Nat := []
  /-- Whether it is the last record of its run. -/
  isFinal : Bool := false
  exitcode : Option UInt64 := none
deriving Repr, DecidableEq

/-- How a record becomes a number. -/
inductive Reduction where
  | meanCount (channel : Nat)
  | timestampCount (channel : Nat)
deriving Repr, DecidableEq

/-- None if a mean is wanted and the record has no counts. -/
def Reduction.apply (r : Reduction) (m : Measurement) : Option Float :=
  match r with
  | .meanCount channel =>
      match m.counts[channel]?.getD [] with
      | [] => none
      | counts =>
          let total := counts.foldl (fun sum c => sum + c.toFloat) 0.0
          some (total / Float.ofNat counts.length)
  | .timestampCount channel => some (Float.ofNat (m.timestampCounts[channel]?.getD 0))

/-- How a scanned value becomes the x of a point. -/
structure PlotAxis where
  /-- A formula in `x`. -/
  formula : Option String := none
  /-- The unit of the axis. -/
  unit : Option String := none
deriving Repr, DecidableEq

namespace PlotAxis

/-- The value of the formula, or the scanned value itself. -/
def transform (a : PlotAxis) (value : Quantity) : Except FormulaError Quantity :=
  match a.formula with
  | none => .ok value
  | some text => do
      let scope := Formula.Scope.ofValues (Table.ofList [("x", .quantity value)])
      match (← Formula.Evaluator.default.evaluate text scope).value with
      | .quantity q => return q
      | other => return .plain (← other.toFloat "x expression")

/-- The magnitude in the unit of the axis; a plain number needs no unit. -/
def apply (a : PlotAxis) (value : Quantity) : Except ScanError Float := do
  let q ← (a.transform value).mapError .formula
  match a.unit with
  | none => return q.magnitude
  | some unit =>
      if q.isPlain then return q.magnitude
      else
        let unit ← (PhysicalUnit.parse unit).mapError .unit
        (q.magnitudeIn unit).mapError .unit

end PlotAxis

/-- Points in the order in which they came in. -/
structure Trace where
  points : List (Float × Float) := []
  /-- How many of the newest points are kept; all, if there is no limit. -/
  limit : Option Nat := none

namespace Trace

/-- Adds a point, and drops the oldest ones beyond the limit. -/
def push (t : Trace) (x y : Float) : Trace :=
  let points := t.points ++ [(x, y)]
  match t.limit with
  | none => { t with points }
  | some limit => { t with points := points.drop (points.length - limit) }

def clear (t : Trace) : Trace := { t with points := [] }

def length (t : Trace) : Nat := t.points.length

end Trace

/-- Why a measurement ended. -/
inductive StopReason where
  | completed
  | userRequest
  | exitcode (code : UInt64)
deriving Repr, DecidableEq

/-- The end of a measurement, which happens once. -/
structure StopHandler where
  /-- Whether somebody waits for the end. -/
  awaited : Bool := false
  reason : Option StopReason := none
  /-- The reasons that were passed on. -/
  told : List StopReason := []
deriving Repr, DecidableEq

namespace StopHandler

def isStopped (h : StopHandler) : Bool := h.reason.isSome

/-- Ends the measurement; false if it had ended before. -/
def stop (h : StopHandler) (reason : StopReason) : StopHandler × Bool :=
  if h.isStopped then (h, false)
  else
    ({ awaited := false, reason := some reason
       told := if h.awaited then h.told ++ [reason] else h.told }, true)

end StopHandler

end PulseSequencer
