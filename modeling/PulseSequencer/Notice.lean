/-
# PulseSequencer.Notice -- what the software reports while it works

A notice has a severity, the part that gives it, and a text.  Notices are results
like any other: an operation returns the ones it gives, in order.
-/

namespace PulseSequencer

set_option autoImplicit false

inductive Severity where
  | debug
  | info
  | warning
  | error
deriving Repr, DecidableEq

/-- The parts that give notices. -/
inductive Reporter where
  | program
  | updateStream
  | telemetry
  | record
  | logicAnalyzer
  | controller
  | engine
  | client
deriving Repr, DecidableEq

structure Notice where
  severity : Severity
  reporter : Reporter
  text : String
deriving Repr, DecidableEq

end PulseSequencer
