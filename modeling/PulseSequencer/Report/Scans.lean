import PulseSequencer.Report.Values
import PulseSequencer.Scan.Generator

/-
# PulseSequencer.Report.Scans -- reports on scans and the measurements they drive
-/

namespace PulseSequencer.Report

set_option autoImplicit false

instance : Reported UpdateStream :=
  ⟨fun s => .record [("total", s.total?), ("sent", s.sent), ("completed", s.completed),
    ("in_flight", s.inFlight), ("max", s.window), ("exhausted", s.isExhausted),
    ("complete", s.isComplete)]⟩

/-- The words of a burst. -/
def burst (b : Bytes) : Report := .stream (wordsOfBytes b)

instance : Reported Trace :=
  ⟨fun t => .record [("len", t.length), ("empty", t.points.isEmpty),
    ("x", t.points.map Prod.fst), ("y", t.points.map Prod.snd)]⟩

instance : Reported StopReason :=
  ⟨fun r => match r with
    | .completed => "completed"
    | .userRequest => "user"
    | .exitcode code => code⟩

instance : Reported Sweep :=
  ⟨fun s => .record [("parameter", s.parameter), ("values", s.values),
    ("reason", s.handler.reason)]⟩

/-- How far a measurement has come. -/
instance : Reported Generator :=
  ⟨fun g => .record [("finished", g.isFinished), ("points", g.trace.length),
    ("stopped_with", g.handler.told), ("stream", g.stream)]⟩

end PulseSequencer.Report
