import PulseSequencer.Bytes
import PulseSequencer.Program.Update
import PulseSequencer.Scan.Gates

/-
# PulseSequencer.Scan.UpdateStream -- updates on their way to the sequencer

The sequencer holds a limited number of words that it has not yet used.  Updates
are sent in bursts of whole steps that fill this window, and a step leaves it when
the sequencer has done it.
-/

namespace PulseSequencer

set_option autoImplicit false

/-- An update that changes nothing. -/
def zeroUpdate : List UInt64 := [0, 0]

/-- An address and a value. -/
def wordsPerUpdate : Nat := 2

/-- The updates that set a parameter to each of the values.  For a name that the
program does not know every step is an update that changes nothing. -/
def updatePairs (p : Program) (parameter : String) (values : List Quantity) :
    Except ProgramError (List UInt64) × List Notice :=
  match p.find? parameter with
  | some _ => (p.scanCode parameter values, [])
  | none =>
      (.ok (values.flatMap fun _ => zeroUpdate),
        [⟨.warning, .updateStream, "Scan parameter '" ++ parameter ++
          "' is not a variable of the pulse program, no updates are sent"⟩])

inductive UpdateSource where
  | steps (all : List (List UInt64))
  /-- The same step over and over. -/
  | repeating (step : List UInt64)
deriving Repr, DecidableEq

/-- How many words of updates the sequencer may hold, unless told otherwise. -/
def defaultWindow : Nat := 2040

structure UpdateStream where
  source : UpdateSource
  /-- How many words the sequencer may hold. -/
  window : Nat := defaultWindow
  sent : Nat := 0
  completed : Nat := 0
deriving Repr, DecidableEq

namespace UpdateStream

def ofSteps (steps : List (List UInt64)) : UpdateStream := { source := .steps steps }

/-- Steps of equal size; the last one may be short. -/
def ofWords (words : List UInt64) (size : Nat) : UpdateStream :=
  ofSteps (GateSequences.chunks size words)

def repeating (step : List UInt64) : UpdateStream := { source := .repeating step }

/-- The number of steps; a repeating stream has no end. -/
def total? (s : UpdateStream) : Option Nat :=
  match s.source with
  | .steps all => some all.length
  | .repeating _ => none

/-- The steps that were sent and are not done. -/
def outstanding (s : UpdateStream) : List (List UInt64) :=
  match s.source with
  | .steps all => (all.take s.sent).drop s.completed
  | .repeating step => List.replicate (s.sent - s.completed) step

/-- The words that the sequencer has not yet used. -/
def inFlight (s : UpdateStream) : Nat :=
  match s.source with
  | .steps _ => s.outstanding.flatten.length
  | .repeating step => (s.sent - s.completed) * step.length

def isExhausted (s : UpdateStream) : Bool := s.total?.any (· ≤ s.sent)

def isComplete (s : UpdateStream) : Bool := s.total?.any (· ≤ s.completed)

/-- The steps from here on, at least as many as the window can take. -/
def upcoming (s : UpdateStream) : List (List UInt64) :=
  match s.source with
  | .steps all => all.drop s.sent
  | .repeating step =>
      if step.isEmpty then [] else List.replicate (s.window / step.length + 1) step

/-- The steps that the window has room for.  A step that is longer than the window
goes alone, once no word is in flight. -/
def fill (window : Nat) : Nat → List (List UInt64) → List (List UInt64)
  | _, [] => []
  | inFlight, step :: rest =>
      if inFlight + step.length ≤ window then step :: fill window (inFlight + step.length) rest
      else if inFlight > 0 then []
      else [step]

/-- The steps that can be sent now. -/
def nextSteps (s : UpdateStream) : List (List UInt64) := fill s.window s.inFlight s.upcoming

/-- Sends what the window has room for. -/
def nextBurst (s : UpdateStream) : UpdateStream × Bytes :=
  let steps := s.nextSteps
  ({ s with sent := s.sent + steps.length }, bytesOfWords steps.flatten)

/-- The sequencer has done a step; false if none was outstanding. -/
def stepCompleted (s : UpdateStream) : UpdateStream × Bool :=
  if s.completed < s.sent then ({ s with completed := s.completed + 1 }, true) else (s, false)

end UpdateStream

end PulseSequencer
