import PulseSequencer.Number.Radix
import PulseSequencer.Scan.Trace
import PulseSequencer.Telemetry.Decoder

/-
# PulseSequencer.Telemetry.Record -- tokens gathered into records

A record holds everything that was reported between two boundaries.  A boundary is
the end of a run, an overrun of the device, or a scan value that comes when the
record already has one; the new scan value then belongs to the next record.
-/

namespace PulseSequencer.Telemetry

set_option autoImplicit false

/-- Lists with one entry per channel are as long as the highest channel needs. -/
structure Record where
  counts : List (List UInt64) := []
  /-- Per channel the timestamps of every gate window. -/
  timestamps : List (List (List UInt64)) := []
  results : List (List Int64) := []
  dedicated : List (List UInt64) := []
  adcMeans : List (Option Float) := []
  /-- Time ticks on the host's clock, in nanoseconds. -/
  timeTicks : List (List UInt64) := []
  other : List UInt64 := []
  scanValue : Option UInt64 := none
  dependentValues : List UInt64 := []
  isFinal : Bool := false
  exitcode : Option UInt64 := none
  /-- Whether the device lost data of this record. -/
  overrun : Bool := false
  timingViolations : List UInt16 := []
  externalStatus : Option UInt16 := none

/-- Changes the entry of a channel; channels that are missing are filled up. -/
def onChannel {α : Type} (empty : α) (change : α → α) : Nat → List α → List α
  | 0, [] => [change empty]
  | 0, x :: rest => change x :: rest
  | channel + 1, [] => empty :: onChannel empty change channel []
  | channel + 1, x :: rest => x :: onChannel empty change channel rest

theorem getElem?_onChannel_self {α : Type} (empty : α) (change : α → α) (channel : Nat)
    (items : List α) :
    (onChannel empty change channel items)[channel]? =
      some (change (items[channel]?.getD empty)) := by
  induction channel generalizing items with
  | zero => cases items <;> simp [onChannel]
  | succ n ih => cases items <;> simp [onChannel, ih]

/-- Adds a value to the list of a channel. -/
def addOn {α : Type} (channel : UInt8) (value : α) (items : List (List α)) : List (List α) :=
  onChannel [] (· ++ [value]) channel.toNat items

/-- Adds a timestamp to the last window, which is opened if there is none. -/
def addToWindow (time : UInt64) (windows : List (List UInt64)) : List (List UInt64) :=
  match windows.getLast? with
  | some window => windows.dropLast ++ [window ++ [time]]
  | none => [[time]]

namespace Record

/-- Whether no data arrived. -/
def isEmpty (r : Record) : Bool :=
  r.counts.all List.isEmpty && r.timestamps.flatten.all List.isEmpty &&
    r.results.all List.isEmpty && r.dedicated.all List.isEmpty && r.adcMeans.all Option.isNone &&
    r.other.isEmpty

/-- The number of timestamps of a channel in all windows. -/
def timestampCount (r : Record) (channel : Nat) : Nat :=
  (r.timestamps[channel]?.getD []).flatten.length

/-- What a record tells a scan. -/
def measurement (r : Record) : Measurement :=
  { counts := r.counts
    timestampCounts := (List.range r.timestamps.length).map r.timestampCount
    isFinal := r.isFinal
    exitcode := r.exitcode }

/-- Adds a token that is no boundary.  The ticks of the device clock start at
`offset` on the host's clock. -/
def add (r : Record) (offset : UInt64) : Token → Record
  | .dependentValue value => { r with dependentValues := r.dependentValues ++ [value] }
  | .timingViolation address => { r with timingViolations := r.timingViolations ++ [address] }
  | .count channel n => { r with counts := addOn channel n r.counts }
  | .timestamp channel time =>
      { r with timestamps := onChannel [] (addToWindow time) channel.toNat r.timestamps }
  | .gateStart channel _ => { r with timestamps := addOn channel [] r.timestamps }
  | .other value => { r with other := r.other ++ [value] }
  | .adcMean channel mean =>
      { r with adcMeans := onChannel none (fun _ => some mean) channel.toNat r.adcMeans }
  | .timeTick channel time =>
      let hostTime := if offset + time < offset then 0xffffffffffffffff else offset + time
      { r with timeTicks := addOn channel hostTime r.timeTicks }
  | .result channel value => { r with results := addOn channel value r.results }
  | .dedicated channel value => { r with dedicated := addOn channel value r.dedicated }
  | .endOfRun | .exitcode _ | .scanValue _ | .unknown _ => r

end Record

/-! ## Records of a stream -/

/-- When to compare the clocks of the device and the host. -/
structure DriftCheck where
  /-- Nanoseconds between two checks. -/
  period : UInt64 := 60000000000
  /-- Seconds that the clocks may be apart. -/
  tolerance : Nat := 60
deriving Repr, DecidableEq

structure Assembler where
  decoder : Decoder := {}
  /-- The record that is being filled. -/
  current : Record := {}
  /-- The host's clock, in nanoseconds. -/
  hostTime : UInt64 := 0
  /-- The host's time at which the device clock stood at zero. -/
  clockOffset : UInt64 := 0
  driftCheck : DriftCheck := {}
  /-- When the clocks were last compared. -/
  lastDriftCheck : Option UInt64 := none

namespace Assembler

/-- Drops everything that belongs to the run. -/
def reset (a : Assembler) : Assembler := { a with decoder := {}, current := {} }

/-- Lets the device clock start now. -/
def synchronize (a : Assembler) : Assembler := { a with clockOffset := a.hostTime }

/-- Whether a first tick of the record is too far from the host's clock. -/
def hasDrifted (a : Assembler) : Bool :=
  a.current.timeTicks.any fun ticks =>
    match ticks with
    | [] => false
    | tick :: _ =>
        let distance := if tick ≤ a.hostTime then a.hostTime - tick else tick - a.hostTime
        decide (distance.toNat > a.driftCheck.tolerance * 1000000000)

/-- Compares the clocks, unless that was done less than a period ago. -/
def checkDrift (a : Assembler) : Assembler × List Notice :=
  let recently : Bool := match a.lastDriftCheck with
    | some last => decide (a.hostTime - last < a.driftCheck.period)
    | none => false
  if recently then (a, [])
  else
    ({ a with lastDriftCheck := some a.hostTime },
      if a.hasDrifted then
        [⟨.warning, .record, s!"Device time ticks are more than {a.driftCheck.tolerance}s away " ++
          "from the host clock, time synchronization was lost or a counter wrap was missed"⟩]
      else [])

/-- Ends the run of the current record. -/
def finish (a : Assembler) (code : UInt64) : Assembler × Record :=
  ({ a with decoder := a.decoder.restartRun, current := {} },
    { a.current with isFinal := true, exitcode := some code })

/-- Accounts for a token, and tells the record that it completes. -/
def apply (a : Assembler) (token : Token) : Assembler × Option Record × List Notice :=
  match token with
  | .endOfRun => ((a.finish Variable.endOfRun).1, some (a.finish Variable.endOfRun).2, [])
  | .exitcode code => ((a.finish code).1, some (a.finish code).2, [])
  | .scanValue value =>
      if a.current.scanValue.isSome then
        ({ a with current := { scanValue := some value } }, some a.current, [])
      else ({ a with current := { a.current with scanValue := some value } }, none, [])
  | .unknown word =>
      (a, none, [⟨.debug, .record, s!"Ignoring unknown telemetry word {hexText word.toNat 16}"⟩])
  | token =>
      let a := { a with current := a.current.add a.clockOffset token }
      match token with
      | .timingViolation address =>
          (a, none, [⟨.warning, .record,
            s!"Timing violation at UPDATE address {address.toNat}"⟩])
      | .timeTick .. => (a.checkDrift.1, none, a.checkDrift.2)
      | _ => (a, none, [])

/-- Accounts for tokens in order. -/
def applyAll (a : Assembler) : List Token → Assembler × List Record × List Notice
  | [] => (a, [], [])
  | token :: tokens =>
      let (a, record, notices) := a.apply token
      let (a, records, more) := a.applyAll tokens
      (a, record.toList ++ records, notices ++ more)

/-- Takes a piece of the stream, and tells the records that it completes.  All of
the piece is decoded before the first token is accounted for. -/
def feed (a : Assembler) (bytes : Bytes) : Assembler × List Record × List Notice :=
  let (decoder, tokens, notices) := a.decoder.feed bytes
  let (a, records, more) := { a with decoder }.applyAll tokens
  (a, records, notices ++ more)

/-- Closes the current record because the device lost data. -/
def closeOverrun (a : Assembler) : Assembler × Record :=
  ({ a with current := {} }, { a.current with overrun := true })

end Assembler

end PulseSequencer.Telemetry
