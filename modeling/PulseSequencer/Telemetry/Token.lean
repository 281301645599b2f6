import PulseSequencer.Program.Variable

/-
# PulseSequencer.Telemetry.Token -- what the sequencer reports while it runs

A token is one thing that the sequencer reports.  On the wire it is one word, or
two for scan values and results; the top byte of a word tells what it is.  Clock
overflows stand between the tokens and only move the times after them, so that an
`Item` is a token's wire form or an overflow.

Main statement: `Item.words_ne_nil` (nothing is sent without a word).
-/

namespace PulseSequencer.Telemetry

set_option autoImplicit false

/-- Times are nanoseconds since the start of the run. -/
inductive Token where
  | endOfRun
  /-- The whole word of an exit code. -/
  | exitcode (code : UInt64)
  | scanValue (value : UInt64)
  | dependentValue (value : UInt64)
  /-- An update that was reached too late, by its address. -/
  | timingViolation (address : UInt16)
  | count (channel : UInt8) (n : UInt64)
  | timestamp (channel : UInt8) (time : UInt64)
  | gateStart (channel : UInt8) (time : UInt64)
  | other (value : UInt64)
  | adcMean (channel : UInt8) (mean : Float)
  | timeTick (channel : UInt8) (time : UInt64)
  | result (channel : UInt8) (value : Int64)
  | dedicated (channel : UInt8) (value : UInt64)
  | unknown (word : UInt64)

/-! ## Words -/

/-- Nanoseconds in a tick of the device clock. -/
def tickLength : UInt64 := 5

/-- How many ticks an overflow stands for. -/
def overflowLength : UInt64 := 0x10000000000

def mask28 : UInt64 := 0x0fffffff

def mask40 : UInt64 := 0xffffffffff

def mask48 : UInt64 := 0xffffffffffff

/-- The top bytes of the words. -/
inductive Key where
  | count
  | timestamp
  | gateStart
  | other
  | adc
  | timeTick
  | resultHigh
  | resultLow
  | dedicated
  | marker
deriving Repr, DecidableEq

namespace Key

def code : Key → UInt64
  | count => 0x01
  | timestamp => 0x02
  | gateStart => 0x03
  | other => 0x04
  | adc => 0x05
  | timeTick => 0x06
  | resultHigh => 0x50
  | resultLow => 0x51
  | dedicated => 0xee
  | marker => 0xff

def all : List Key :=
  [count, timestamp, gateStart, other, adc, timeTick, resultHigh, resultLow, dedicated, marker]

def ofWord? (word : UInt64) : Option Key := all.find? fun k => k.code == word >>> 56

end Key

/-- The upper 16 bits of the words that mark something in a run. -/
inductive Marker where
  | exitcode
  | overflow
  | scan
  | timingViolation
deriving Repr, DecidableEq

namespace Marker

def code : Marker → UInt64
  | exitcode => 0xfffe
  | overflow => 0xfffd
  | scan => 0xfffc
  | timingViolation => 0xfffb

def all : List Marker := [exitcode, overflow, scan, timingViolation]

def ofWord? (word : UInt64) : Option Marker := all.find? fun m => m.code == word >>> 48

def word (m : Marker) (payload : UInt64) : UInt64 := m.code <<< 48 ||| payload

end Marker

/-- Set in a scan marker if the value that follows is a dependent one. -/
def dependentBit : UInt64 := 0x8000

/-- A word with a key, a channel, and a payload in the other bits. -/
def channelWord (key : Key) (channel : UInt8) (payload : UInt64) : UInt64 :=
  key.code <<< 56 ||| channel.toUInt64 <<< 48 ||| payload

/-- What is sent.  Times are counted in ticks, without the overflows before them. -/
inductive Item where
  | count (channel : UInt8) (n : UInt64)
  | timestamp (channel : UInt8) (ticks : UInt64)
  | gateStart (channel : UInt8) (ticks : UInt64)
  | timeTick (channel : UInt8) (ticks : UInt64)
  | adc (channel : UInt8) (samples sum : UInt64)
  | scanValue (value : UInt64)
  | dependentValue (value : UInt64)
  | result (channel : UInt8) (value : Int64)
  | dedicated (channel : UInt8) (value : UInt64)
  | overflow
  | timingViolation (address : UInt16)
  | exitcode (code : UInt64)
  | endOfRun
  /-- A word as it is. -/
  | word (w : UInt64)
deriving Repr, DecidableEq

/-- The item of a name, with up to three numbers: the channel, if it has one, and its
other fields. -/
def Item.ofName (name : String) (a b c : UInt64) : Item :=
  match name with
  | "count" => .count a.toUInt8 b
  | "timestamp" => .timestamp a.toUInt8 b
  | "gate" => .gateStart a.toUInt8 b
  | "tick" => .timeTick a.toUInt8 b
  | "adc" => .adc a.toUInt8 b c
  | "scan" => .scanValue a
  | "dependent" => .dependentValue a
  | "result" => .result a.toUInt8 b.toInt64
  | "dedicated" => .dedicated a.toUInt8 b
  | "overflow" => .overflow
  | "violation" => .timingViolation a.toUInt16
  | "exitcode" => .exitcode a
  | _ => .endOfRun

/-- The wire form of an item; bits that do not fit its fields are lost. -/
def Item.words : Item → List UInt64
  | .count channel n => [channelWord .count channel (n &&& mask40)]
  | .timestamp channel ticks => [channelWord .timestamp channel (ticks &&& mask40)]
  | .gateStart channel ticks => [channelWord .gateStart channel (ticks &&& mask40)]
  | .timeTick channel ticks => [channelWord .timeTick channel (ticks &&& mask40)]
  | .adc channel samples sum =>
      [channelWord .adc channel ((samples &&& 0xfff) <<< 28 ||| (sum &&& mask28))]
  | .scanValue value => [Marker.scan.word 0, value]
  | .dependentValue value => [Marker.scan.word dependentBit, value]
  | .result channel value =>
      [channelWord .resultHigh channel (value.toUInt64 >>> 48),
        channelWord .resultLow 0 (value.toUInt64 &&& mask48)]
  | .dedicated channel value => [channelWord .dedicated channel (value &&& mask48)]
  | .overflow => [Marker.overflow.word 0]
  | .timingViolation address => [Marker.timingViolation.word address.toUInt64]
  | .exitcode code => [Marker.exitcode.word (code &&& mask48)]
  | .endOfRun => [Variable.endOfRun]
  | .word w => [w]

theorem Item.words_ne_nil (item : Item) : item.words ≠ [] := by
  cases item <;> simp [Item.words]

end PulseSequencer.Telemetry
