import PulseSequencer.Device.Client
import PulseSequencer.Report.Values

/-
# PulseSequencer.Report.Devices -- reports on the device and what comes from it
-/

namespace PulseSequencer.Report

set_option autoImplicit false

instance : Reported UInt8 := ⟨fun n => .number n.toNat⟩
instance : Reported UInt16 := ⟨fun n => .number n.toNat⟩
instance : Reported Int64 := ⟨fun n => .integer n.toInt⟩

/-! ## Telemetry -/

instance : Reported Telemetry.Token :=
  ⟨fun t => match t with
    | .endOfRun => row ["end"]
    | .exitcode code => row ["exitcode", code]
    | .scanValue value => row ["scan", value]
    | .dependentValue value => row ["dependent", value]
    | .timingViolation address => row ["violation", address]
    | .count channel n => row ["count", channel, n]
    | .timestamp channel time => row ["timestamp", channel, time]
    | .gateStart channel time => row ["gate", channel, time]
    | .other value => row ["other", value]
    | .adcMean channel mean => row ["adc", channel, mean]
    | .timeTick channel time => row ["tick", channel, time]
    | .result channel value => row ["result", channel, value]
    | .dedicated channel value => row ["dedicated", channel, value]
    | .unknown w => row ["unknown", w]⟩

def streams (lists : List (List UInt64)) : Report := .list (lists.map stream)

/-- A record, with another report in place of its time ticks. -/
def telemetryRecord (r : Telemetry.Record) (ticks : Report) : Report :=
  .record [("counts", streams r.counts), ("timestamps", .list (r.timestamps.map streams)),
    ("timestamp_counts", (List.range (r.timestamps.length + 1)).map r.timestampCount),
    ("results", r.results), ("dedicated", streams r.dedicated), ("adc", r.adcMeans),
    ("ticks", ticks), ("other", r.other), ("scan", r.scanValue), ("dependent", r.dependentValues),
    ("final", r.isFinal), ("exitcode", r.exitcode), ("overrun", r.overrun),
    ("violations", r.timingViolations), ("status", r.externalStatus), ("empty", r.isEmpty)]

instance : Reported Telemetry.Record := ⟨fun r => telemetryRecord r r.timeTicks⟩

/-- A record of which only the number of time ticks is told. -/
def untimed (r : Telemetry.Record) : Report := telemetryRecord r (r.timeTicks.map List.length)

/-! ## Captures, firmware and waveforms -/

instance : Reported LogicAnalyzer.Event := ⟨fun e => row [tag e.kind, e.time, e.pattern]⟩

instance : Reported LogicAnalyzer.Stats :=
  ⟨fun s => row [s.records, s.realignments, s.skippedBytes]⟩

instance : Reported BitfileInfo :=
  ⟨fun i => .record [("design", i.design), ("part", i.part), ("date", i.date), ("time", i.time),
    ("length", i.bitstreamLength), ("md5", i.md5)]⟩

instance : Reported WaveformPoint := ⟨fun p => row [p.value, p.unit, p.encoding]⟩

def count (n : UInt64) : Report := .number n.toNat

instance : Reported WaveformEdge :=
  ⟨fun e => row [count e.startLine, count e.stopLine, count e.idleCount,
    count e.byteRange.1, count e.byteRange.2]⟩

instance : Reported Waveform := ⟨fun w => .record [("points", w.points), ("edges", w.edges)]⟩

/-! ## Configurations -/

instance : Reported DdsChannel := ⟨fun d => row [d.channel, d.chip]⟩
instance : Reported Converter := ⟨fun c => row [c.channels, c.encoding]⟩
instance : Reported NamedBit := ⟨fun b => row [b.name, b.bit]⟩
instance : Reported RegisterParameter := ⟨fun p => row [p.name, p.address, p.encoding]⟩

instance : Reported DeviceConfiguration :=
  ⟨fun c => .record [("id", c.id), ("name", c.name), ("limits", row [c.limits.code, c.limits.data]),
    ("dds", c.dds), ("dac", c.dac), ("adc", c.adc), ("status", c.statusBits),
    ("shutter", c.shutterBits), ("trigger", c.triggerBits), ("counter", c.counterBits),
    ("extended", c.parameters)]⟩

/-- The masks of the same names among shutters, triggers and counters. -/
def masks (c : DeviceConfiguration) (names : List String) : Report :=
  row [maskOf? c.shutterBits names, maskOf? c.triggerBits names, maskOf? c.counterBits names]

/-! ## The board and its engine -/

instance : Reported Board :=
  ⟨fun b => .record [("triggers", b.triggers.map UInt8.toNat), ("extended", b.written), ("code", b.code),
    ("data", .stream (splitWords b.data).1), ("fifo", .stream (splitWords b.inputFifo).1),
    ("running", b.running), ("paused", b.paused), ("ram_writes", b.memoryWrites),
    ("configurations", b.configurations), ("bitfile_len", b.bitfile.map List.length)]⟩

/-- The bytes of a memory.  Of many the first ones are told, and a sum in which the
place of a byte counts. -/
def memory (b : Bytes) : Report :=
  if b.length ≤ 128 then b
  else
    let sum : Nat := (b.zipIdx 1).foldl (fun n (byte, place) => n + byte.toNat * place) 0
    .record [("len", b.length), ("head", b.take 16), ("weighted_sum", sum)]

instance : Reported EngineReply :=
  ⟨fun r => match r with
    | .done => .nothing
    | .records rs => rs
    | .bitfile info => info
    | .memory b => memory b
    | .capture events => events
    | .status bits => bits⟩

end PulseSequencer.Report
