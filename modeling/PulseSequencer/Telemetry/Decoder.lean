import PulseSequencer.Bytes
import PulseSequencer.Notice
import PulseSequencer.Telemetry.Token

/-
# PulseSequencer.Telemetry.Decoder -- from bytes to tokens

The decoder takes the stream in pieces of any size.  Bytes of a word that is not
complete wait for the next piece, and what a word means may depend on the words
before it: a scan marker and the high half of a result announce a second word,
and every overflow moves the times after it.
-/

namespace PulseSequencer.Telemetry

set_option autoImplicit false

/-- What the next word is. -/
inductive Phase where
  | normal
  | scanValue
  | dependentValue
  /-- The low half of a result. -/
  | resultLow (channel : UInt8) (high : UInt16)
deriving Repr, DecidableEq

structure Decoder where
  phase : Phase := .normal
  /-- The bytes of a word that is not complete. -/
  residual : Bytes := []
  /-- The ticks of all overflows of the run. -/
  overflowTicks : UInt64 := 0
deriving Repr, DecidableEq

namespace Decoder

/-- The time of a word, in nanoseconds since the start of the run. -/
def time (d : Decoder) (word : UInt64) : UInt64 :=
  ((word &&& mask40) + d.overflowTicks) * tickLength

/-- The mean of the samples whose number and sum a word tells. -/
def adcMean (word : UInt64) : Float :=
  let samples := word >>> 28 &&& 0xfff
  if samples = 0 then 0.0 else (word &&& mask28).toFloat / samples.toFloat

/-- Takes a word whose top byte is that of the markers. -/
def marker (d : Decoder) (word : UInt64) : Decoder × Option Token :=
  if word = Variable.endOfRun then (d, some .endOfRun)
  else match Marker.ofWord? word with
    | some .exitcode => (d, some (.exitcode word))
    | some .overflow => ({ d with overflowTicks := d.overflowTicks + overflowLength }, none)
    | some .scan =>
        let phase := if word &&& dependentBit ≠ 0 then .dependentValue else .scanValue
        ({ d with phase }, none)
    | some .timingViolation => (d, some (.timingViolation word.toUInt16))
    | none => (d, some (.unknown word))

/-- Takes a word that no word before it announced. -/
def first (d : Decoder) (word : UInt64) : Decoder × Option Token :=
  let channel := (word >>> 48).toUInt8
  match Key.ofWord? word with
  | some .marker => d.marker word
  | some .count => (d, some (.count channel (word &&& mask40)))
  | some .timestamp => (d, some (.timestamp channel (d.time word)))
  | some .gateStart => (d, some (.gateStart channel (d.time word)))
  | some .other => (d, some (.other (word &&& mask40)))
  | some .adc => (d, some (.adcMean channel (adcMean word)))
  | some .timeTick => (d, some (.timeTick channel (d.time word)))
  | some .dedicated => (d, some (.dedicated channel (word &&& mask48)))
  | some .resultHigh => ({ d with phase := .resultLow channel word.toUInt16 }, none)
  | some .resultLow | none => (d, some (.unknown word))

/-- Takes a word. -/
def next (d : Decoder) (word : UInt64) : Decoder × Option Token × List Notice :=
  let rest := { d with phase := .normal }
  match d.phase with
  | .normal => ((rest.first word).1, (rest.first word).2, [])
  | .scanValue => (rest, some (.scanValue word), [])
  | .dependentValue => (rest, some (.dependentValue word), [])
  | .resultLow channel high =>
      if Key.ofWord? word = some .resultLow then
        let value := high.toUInt64 <<< 48 ||| (word &&& mask48)
        (rest, some (.result channel value.toInt64), [])
      else
        ((rest.first word).1, (rest.first word).2,
          [⟨.debug, .telemetry, s!"Result on channel {channel.toNat} lost its low half"⟩])

/-- Takes words in order. -/
def nextAll (d : Decoder) : List UInt64 → Decoder × List Token × List Notice
  | [] => (d, [], [])
  | word :: words =>
      let (d, token, notices) := d.next word
      let (d, tokens, more) := d.nextAll words
      (d, token.toList ++ tokens, notices ++ more)

/-- The words that a piece of the stream completes, and the bytes that wait behind them.  Bytes
that wait already are filled up to a word first; a piece that is too short for this waits with
them. -/
def completeWords (d : Decoder) (bytes : Bytes) : List UInt64 × Bytes :=
  if d.residual.isEmpty then splitWords bytes
  else
    let missing := min (8 - d.residual.length) bytes.length
    let filled := d.residual ++ bytes.take missing
    if filled.length < 8 then ([], filled)
    else
      let (words, rest) := splitWords (bytes.drop missing)
      (wordOfBytes filled :: words, rest)

/-- Takes a piece of the stream. -/
def feed (d : Decoder) (bytes : Bytes) : Decoder × List Token × List Notice :=
  let (words, residual) := d.completeWords bytes
  let (d, tokens, notices) := d.nextAll words
  ({ d with residual }, tokens, notices)

/-- Begins a new run in the same stream. -/
def restartRun (d : Decoder) : Decoder := { d with phase := .normal, overflowTicks := 0 }

end Decoder

end PulseSequencer.Telemetry
