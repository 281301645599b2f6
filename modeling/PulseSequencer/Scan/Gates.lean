import PulseSequencer.Scan.Error
import PulseSequencer.Table
import PulseSequencer.Text.Blank

/-
# PulseSequencer.Scan.Gates -- gate sequences that go with the steps of a scan

A step may carry a gate sequence behind its update.  In the stream stands the number
of gates, and then one word for each gate.
-/

namespace PulseSequencer

set_option autoImplicit false

/-- One sequence for every step, or one for each. -/
structure GateSequences where
  sequences : List (List UInt64)
deriving Repr, DecidableEq

namespace GateSequences

def gate (gates : Table String UInt64) (name : String) : Except ScanError UInt64 :=
  match gates.get? name with
  | some word => .ok word
  | none => .error (.invalid (.unknownGate name))

/-- Sequences of gates given by their names. -/
def ofNames (gates : Table String UInt64) (names : List (List String)) :
    Except ScanError GateSequences := do
  return ⟨← names.mapM fun sequence => sequence.mapM (gate gates)⟩

/-- The part of a line before a comment, without blanks around it. -/
def withoutComment (line : List Char) : List Char :=
  Text.trim (line.takeWhile (· != '#'))

/-- The names of a line, between commas and blanks.  A dash stands for no gate. -/
def lineNames (line : List Char) : List String :=
  ((Text.splitAll (fun c => c == ',' || Text.isBlank c) line).map String.ofList).filter
    fun name => !name.isEmpty && name != "-"

/-- One sequence per line that is not empty. -/
def parse (gates : Table String UInt64) (text : String) : Except ScanError GateSequences :=
  let lines := ((Text.lines text.toList).map withoutComment).filter fun line => !line.isEmpty
  ofNames gates (lines.map lineNames)

/-- A sequence behind its length. -/
def framed (sequence : List UInt64) : List UInt64 :=
  UInt64.ofNat sequence.length :: sequence

/-- The words that go with a step. -/
def payload? (g : GateSequences) (step : Nat) : Option (List UInt64) :=
  match g.sequences with
  | [only] => some (framed only)
  | many => many[step]?.map framed

/-- The updates of `size` words each; the last one may be short. -/
def chunks {α : Type} (size : Nat) (xs : List α) : List (List α) :=
  match xs with
  | [] => []
  | x :: rest => (x :: rest.take (size - 1)) :: chunks size (rest.drop (size - 1))
termination_by xs.length
decreasing_by simp only [List.length_drop, List.length_cons]; omega

/-- Every update with the payload of its step behind it. -/
def interleave (g : GateSequences) (updates : List UInt64) (size : Nat) :
    Except ScanError (List (List UInt64)) :=
  let steps := chunks size updates
  if g.sequences.length ≠ 1 ∧ g.sequences.length ≠ steps.length then
    .error (.invalid (.gateCount g.sequences.length steps.length))
  else .ok (steps.zipIdx.map fun (update, i) => update ++ (g.payload? i).getD [])

end GateSequences

end PulseSequencer
