import PulseSequencer.Bytes
import PulseSequencer.Device.Error
import PulseSequencer.Notice
import PulseSequencer.Telemetry.Token

/-
# PulseSequencer.Device.LogicAnalyzer -- captured pin events

Every event is one word: a header byte on top, 24 bits with the ticks since the
event before it, and a pattern of 32 pins.  Where the top byte is no header the
stream has slipped; the decoder then skips two bytes and looks again, and gives up
when that happens too often in a row.
-/

namespace PulseSequencer.LogicAnalyzer

set_option autoImplicit false

inductive Kind where
  | data
  | trigger
  | auxiliary
  | gate
deriving Repr, DecidableEq

namespace Kind

/-- The top byte of the words of a kind. -/
def header : Kind → UInt8
  | data => 0x80
  | trigger => 0x81
  | auxiliary => 0x82
  | gate => 0x83

def all : List Kind := [data, trigger, auxiliary, gate]

def ofHeader? (header : UInt8) : Option Kind := all.find? fun k => k.header == header

theorem ofHeader?_header (k : Kind) : ofHeader? k.header = some k := by cases k <;> rfl

end Kind

structure Event where
  kind : Kind
  /-- Nanoseconds since the start of the capture. -/
  time : UInt64
  pattern : UInt32
deriving Repr, DecidableEq

def mask24 : UInt64 := 0xffffff

/-- The word of an event so many ticks after the one before it. -/
def eventWord (kind : Kind) (ticks : UInt64) (pattern : UInt32) : UInt64 :=
  kind.header.toUInt64 <<< 56 ||| (ticks &&& mask24) <<< 32 ||| pattern.toUInt64

structure Stats where
  records : Nat := 0
  realignments : Nat := 0
  skippedBytes : Nat := 0
deriving Repr, DecidableEq

structure Decoder where
  /-- How many realignments in a row are accepted. -/
  tolerance : Nat
  /-- The bytes that were not decoded yet. -/
  residual : Bytes := []
  ticks : UInt64 := 0
  /-- The realignments since the last event. -/
  misaligned : Nat := 0
  stats : Stats := {}
deriving Repr, DecidableEq

namespace Decoder

/-- Takes a word that begins with a header. -/
def accept (d : Decoder) (kind : Kind) (word : UInt64) : Decoder × Event :=
  let ticks := d.ticks + (word >>> 32 &&& mask24)
  ({ d with ticks, misaligned := 0, stats := { d.stats with records := d.stats.records + 1 } },
    { kind, time := ticks * Telemetry.tickLength, pattern := word.toUInt32 })

/-- Counts a realignment by two bytes. -/
def slip (d : Decoder) : Decoder :=
  { d with
    misaligned := d.misaligned + 1
    stats := { d.stats with
      realignments := d.stats.realignments + 1
      skippedBytes := d.stats.skippedBytes + 2 } }

/-- Decodes the complete words of the bytes; what follows becomes the residual.
The events before a failure are not told. -/
def scan (d : Decoder) : Bytes → Decoder × Except HardwareFault (List Event)
  | b₀ :: b₁ :: b₂ :: b₃ :: b₄ :: b₅ :: b₆ :: b₇ :: rest =>
      let word := wordOfBytes [b₀, b₁, b₂, b₃, b₄, b₅, b₆, b₇]
      match Kind.ofHeader? b₇ with
      | some kind =>
          let (d, event) := d.accept kind word
          let (d, events) := d.scan rest
          (d, events.map (event :: ·))
      | none =>
          let d := d.slip
          let behind := b₂ :: b₃ :: b₄ :: b₅ :: b₆ :: b₇ :: rest
          if d.misaligned > d.tolerance then
            ({ d with residual := behind }, .error (.alignmentLost d.stats.records))
          else d.scan behind
  | bytes => ({ d with residual := bytes }, .ok [])

/-- Takes a piece of the stream. -/
def feed (d : Decoder) (bytes : Bytes) :
    Decoder × Except HardwareFault (List Event) × List Notice :=
  let (after, events) := d.scan (d.residual ++ bytes)
  let realigned := after.stats.realignments - d.stats.realignments
  let notices := match events with
    | .error _ => []
    | .ok _ =>
        if realigned = 0 then []
        else [⟨.debug, .logicAnalyzer, s!"Logic analyzer stream realigned {realigned} times, " ++
          s!"{after.stats.records} records decoded"⟩]
  (after, events, notices)

end Decoder

end PulseSequencer.LogicAnalyzer
