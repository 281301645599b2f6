import PulseSequencer.Scan.Basic
import PulseSequencer.Scan.Trace
import PulseSequencer.Scan.UpdateStream

/-
# PulseSequencer.Scan.Generator -- measurements that drive the sequencer

A measurement sends updates and makes a point of every record that comes back.  A
sweep takes a parameter through the values of a scan; a monitor stays where it is
until it is stopped.
-/

namespace PulseSequencer

set_option autoImplicit false

/-- Why a measurement ends with its final record. -/
def Measurement.stopReason (m : Measurement) : StopReason :=
  match m.exitcode with
  | some code => if code = Variable.endOfRun then .completed else .exitcode code
  | none => .completed

abbrev Point := Float × Float

structure Sweep where
  parameter : String
  /-- The values in the order of visits. -/
  values : List Quantity
  /-- The updates of all steps. -/
  updates : List UInt64
  stream : UpdateStream
  axis : PlotAxis
  reduction : Reduction
  trace : Trace := {}
  /-- How many values have their point. -/
  received : Nat := 0
  handler : StopHandler

namespace Sweep

/-- Points are plotted in the unit of the scan's start, if it has one. -/
def plotAxis (s : Scan) : PlotAxis :=
  { formula := s.plotted
    unit := if s.start.unit.symbol.isEmpty then none else some s.start.unit.symbol }

def make (s : Scan) (p : Program) (reduction : Reduction) (handler : StopHandler)
    (shuffle : Shuffle := .still) : Except ScanError Sweep × List Notice :=
  match s.values shuffle with
  | .error e => (.error e, [])
  | .ok values =>
      match updatePairs p s.parameter values with
      | (.error e, notices) => (.error (.program e), notices)
      | (.ok updates, notices) =>
          (.ok { parameter := s.parameter, values, updates, stream := .ofWords updates wordsPerUpdate
                 axis := plotAxis s, reduction, handler }, notices)

/-- Sends a gate sequence behind the update of every step. -/
def withGates (s : Sweep) (gates : GateSequences) : Except ScanError Sweep := do
  let steps ← gates.interleave s.updates wordsPerUpdate
  return { s with stream := { UpdateStream.ofSteps steps with window := s.stream.window } }

def isFinished (s : Sweep) : Bool := s.handler.isStopped

def nextBurst (s : Sweep) : Sweep × Bytes :=
  if s.isFinished then (s, [])
  else
    let (stream, bytes) := s.stream.nextBurst
    ({ s with stream }, bytes)

def withWindow (s : Sweep) (words : Nat) : Sweep :=
  { s with stream := { s.stream with window := words } }

/-- The number of a record.  A final record without data gives no point. -/
def reduce? (s : Sweep) (m : Measurement) : Option Float :=
  match s.reduction.apply m with
  | some y => some y
  | none => if m.isFinal then none else some (0.0 / 0.0)

/-- The point of a record, if there is a value left to which it belongs. -/
def point? (s : Sweep) (m : Measurement) : Except ScanError (Option Point) :=
  match s.values[s.received]?, s.reduce? m with
  | some value, some y => do return some (← s.axis.apply value, y)
  | _, _ => .ok none

def addPoint (s : Sweep) (p : Point) : Sweep :=
  { s with
    trace := s.trace.push p.1 p.2
    stream := s.stream.stepCompleted.1
    received := s.received + 1 }

def stop (s : Sweep) (reason : StopReason) : Sweep :=
  { s with handler := (s.handler.stop reason).1 }

/-- Accounts for a record.  The sweep ends with a final record, and when every
value has its point. -/
def onRecord (s : Sweep) (m : Measurement) : Except ScanError (Sweep × Option Point) :=
  if s.isFinished then .ok (s, none)
  else do
    let point ← s.point? m
    let s := match point with
      | some p => s.addPoint p
      | none => s
    if m.isFinal then return (s.stop m.stopReason, point)
    else if s.received = s.values.length then return (s.stop .completed, point)
    else return (s, point)

def requestStop (s : Sweep) : Sweep := s.stop .userRequest

end Sweep

structure Monitor where
  stream : UpdateStream := .repeating zeroUpdate
  reduction : Reduction
  trace : Trace
  /-- The number of points so far, which is the next x. -/
  step : Nat := 0
  handler : StopHandler

namespace Monitor

/-- A monitor that keeps the newest points. -/
def make (limit : Nat) (reduction : Reduction) (handler : StopHandler) : Monitor :=
  { reduction, trace := { limit := some limit }, handler }

def isFinished (m : Monitor) : Bool := m.handler.isStopped

def nextBurst (m : Monitor) : Monitor × Bytes :=
  if m.isFinished then (m, [])
  else
    let (stream, bytes) := m.stream.nextBurst
    ({ m with stream }, bytes)

def withWindow (m : Monitor) (words : Nat) : Monitor :=
  { m with stream := { m.stream with window := words } }

def stop (m : Monitor) (reason : StopReason) : Monitor :=
  { m with handler := (m.handler.stop reason).1 }

/-- Accounts for a record.  One without data gives no point, and its step stays
outstanding. -/
def onRecord (m : Monitor) (r : Measurement) : Monitor × Option Point :=
  if m.isFinished then (m, none)
  else
    let (m, point) := match m.reduction.apply r with
      | none => (m, none)
      | some y =>
          let x := Float.ofNat m.step
          ({ m with
             trace := m.trace.push x y
             stream := m.stream.stepCompleted.1
             step := m.step + 1 }, some (x, y))
    if r.isFinal then (m.stop r.stopReason, point) else (m, point)

def requestStop (m : Monitor) : Monitor := m.stop .userRequest

end Monitor

/-- A measurement of either kind. -/
inductive Generator where
  | sweep (s : Sweep)
  | monitor (m : Monitor)

namespace Generator

def stream : Generator → UpdateStream
  | .sweep s => s.stream
  | .monitor m => m.stream

def handler : Generator → StopHandler
  | .sweep s => s.handler
  | .monitor m => m.handler

def trace : Generator → Trace
  | .sweep s => s.trace
  | .monitor m => m.trace

def isFinished (g : Generator) : Bool := g.handler.isStopped

/-- The updates that the sequencer has room for. -/
def nextBurst : Generator → Generator × Bytes
  | .sweep s => (.sweep s.nextBurst.1, s.nextBurst.2)
  | .monitor m => (.monitor m.nextBurst.1, m.nextBurst.2)

/-- Accounts for a record, and tells its point if it has one. -/
def onRecord (g : Generator) (r : Measurement) : Except ScanError (Generator × Option Point) :=
  match g with
  | .sweep s => do
      let (s, point) ← s.onRecord r
      return (.sweep s, point)
  | .monitor m => .ok (.monitor (m.onRecord r).1, (m.onRecord r).2)

def requestStop : Generator → Generator
  | .sweep s => .sweep s.requestStop
  | .monitor m => .monitor m.requestStop

/-- Changes how many words the sequencer may hold. -/
def withWindow (words : Nat) : Generator → Generator
  | .sweep s => .sweep (s.withWindow words)
  | .monitor m => .monitor (m.withWindow words)

end Generator

end PulseSequencer
