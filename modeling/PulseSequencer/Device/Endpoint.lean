/-
# PulseSequencer.Device.Endpoint -- the addresses of the board

The board is reached through wires that can be read, triggers, and pipes in both
directions.
-/

namespace PulseSequencer

set_option autoImplicit false

/-- Words of 16 bits that the board shows. -/
inductive Wire where
  | hardwareId
  /-- How many words of 16 bits of telemetry wait, and whether some were lost. -/
  | telemetryStatus
  /-- How many words of 16 bits of captured events wait. -/
  | captureStatus
  | externalStatus
deriving Repr, DecidableEq

namespace Wire

def address : Wire → UInt8
  | hardwareId => 0x20
  | telemetryStatus => 0x25
  | captureStatus => 0x27
  | externalStatus => 0x30

def all : List Wire := [hardwareId, telemetryStatus, captureStatus, externalStatus]

def ofAddress? (address : UInt8) : Option Wire := all.find? fun w => w.address == address

end Wire

inductive Trigger where
  | start
  | stop
  | clearOverrun
  | interrupt
  | pause
  | resume
  | clearInputFifo
deriving Repr, DecidableEq

namespace Trigger

/-- The endpoint of all triggers. -/
def endpoint : UInt8 := 0x40

def bit : Trigger → UInt8
  | start => 0
  | stop => 1
  | clearOverrun => 2
  | interrupt => 3
  | pause => 4
  | resume => 5
  | clearInputFifo => 6

def all : List Trigger := [start, stop, clearOverrun, interrupt, pause, resume, clearInputFifo]

def ofBit? (bit : UInt8) : Option Trigger := all.find? fun t => t.bit == bit

theorem ofBit?_bit (t : Trigger) : ofBit? t.bit = some t := by cases t <;> rfl

end Trigger

/-- Pipes that take data. -/
inductive InPipe where
  | registers
  | code
  | data
  | inputFifo
  | memory
deriving Repr, DecidableEq

namespace InPipe

def address : InPipe → UInt8
  | registers => 0x80
  | code => 0x81
  | data => 0x82
  | inputFifo => 0x83
  | memory => 0x84

def all : List InPipe := [registers, code, data, inputFifo, memory]

def ofAddress? (address : UInt8) : Option InPipe := all.find? fun p => p.address == address

end InPipe

/-- Pipes that give data. -/
inductive OutPipe where
  | telemetry
  | memory
  | capture
deriving Repr, DecidableEq

namespace OutPipe

def address : OutPipe → UInt8
  | telemetry => 0xa0
  | memory => 0xa1
  | capture => 0xa2

def all : List OutPipe := [telemetry, memory, capture]

def ofAddress? (address : UInt8) : Option OutPipe := all.find? fun p => p.address == address

end OutPipe

end PulseSequencer
