import PulseSequencer.Encoding.Basic
import PulseSequencer.Ppp.Error
import PulseSequencer.Program.Error

/-
# PulseSequencer.Device.Error -- why the device cannot do what it is asked to
-/

namespace PulseSequencer

set_option autoImplicit false

/-- Where the device is between the start and the end of a run. -/
inductive RunState where
  | idle
  | starting
  | running
  | paused
  | stopping
deriving Repr, DecidableEq

def RunState.name : RunState → String
  | .idle => "idle"
  | .starting => "starting"
  | .running => "running"
  | .paused => "paused"
  | .stopping => "stopping"

/-- What can be asked of a run. -/
inductive RunAction where
  | start
  | pause
  | resume
  | interrupt
deriving Repr, DecidableEq

def RunAction.name : RunAction → String
  | .start => "start"
  | .pause => "pause"
  | .resume => "resume"
  | .interrupt => "interrupt"

/-- What is wrong with a firmware image. -/
inductive BitfileFault where
  | truncatedHeader
  | unknownHeader
  | expectedField (key : Char)
  | truncatedBitstream
deriving Repr, DecidableEq

def BitfileFault.message : BitfileFault → String
  | .truncatedHeader => "header is truncated"
  | .unknownHeader => "unknown header"
  | .expectedField key => "expected field '" ++ key.toString ++ "'"
  | .truncatedBitstream => "bitstream is truncated"

inductive HardwareFault where
  | bitfile (fault : BitfileFault)
  /-- The stream of captured events has no word boundary any more. -/
  | alignmentLost (records : Nat)
  | memoryRange (length : Nat) (address : UInt64)
  /-- A byte of the memory did not read back. -/
  | memoryMismatch (address : UInt64)
  | codeSize (words limit : Nat)
  | dataSize (words limit : Nat)
  | slotRange (slot : Nat)
  | notAllowed (action : RunAction) (state : RunState)
deriving Repr, DecidableEq

/-- The number of bytes of the large memory. -/
def largeMemorySize : Nat := 0x8000000

def HardwareFault.message : HardwareFault → String
  | .bitfile fault => "Invalid bitfile: " ++ fault.message
  | .alignmentLost records =>
      s!"Logic analyzer stream lost alignment after {records} records"
  | .memoryRange length address =>
      s!"RAM access of {length} bytes at {hexText address.toNat} exceeds the address space of " ++
        hexText largeMemorySize
  | .memoryMismatch address => "RAM verification failed at address " ++ hexText address.toNat
  | .codeSize words limit =>
      s!"Code image of {words} words exceeds the command memory of {limit} words"
  | .dataSize words limit =>
      s!"Data image of {words} words exceeds the data memory of {limit} words"
  | .slotRange slot => s!"Data slot {slot} is outside of the data memory"
  | .notAllowed action state => s!"Cannot {action.name} while the pulser is {state.name}"

/-- What the interface of the board refuses. -/
inductive BoardFault where
  | invalidBitstream
  | invalidEndpoint
deriving Repr, DecidableEq

def BoardFault.code : BoardFault → String
  | .invalidBitstream => "InvalidBitstream"
  | .invalidEndpoint => "InvalidEndpoint"

/-- What is wrong with one configuration of a device. -/
inductive ConfigurationDefect where
  | zeroMemory
  | unknownChip (name : String)
  | unknownEncoding (name : String)
  | statusBit (name : String)
  | maskBit (name : String)
deriving Repr, DecidableEq

def ConfigurationDefect.message : ConfigurationDefect → String
  | .zeroMemory => "memory sizes must not be zero"
  | .unknownChip name => "unknown DDS chip '" ++ name ++ "'"
  | .unknownEncoding name => "unknown encoding '" ++ name ++ "'"
  | .statusBit name => "status bit '" ++ name ++ "' is outside of the status wire"
  | .maskBit name => "bit '" ++ name ++ "' is outside of a 64-bit mask"

inductive ConfigurationFault where
  /-- The text is no list of configurations. -/
  | unreadable
  /-- The text is no waveform. -/
  | unreadableWaveform
  | repeatedId (id : UInt16)
  | invalid (id : UInt16) (defect : ConfigurationDefect)
  | unknownHardware (id : UInt16)
  | unknownParameter (name : String)
  | edgeRange (startLine stopLine : UInt64) (lines : Nat)
deriving Repr, DecidableEq

def ConfigurationFault.message : ConfigurationFault → String
  | .unreadable => "Invalid device configuration"
  | .unreadableWaveform => "Invalid RAM file"
  | .repeatedId id => s!"Configuration id {id.toNat} is not unique"
  | .invalid id defect => s!"Configuration {id.toNat}: {defect.message}"
  | .unknownHardware id => "No configuration for hardware id " ++ hexText id.toNat
  | .unknownParameter name => "Unknown extended-wire parameter '" ++ name ++ "'"
  | .edgeRange startLine stopLine lines =>
      s!"Shuttle edge {startLine.toNat}..{stopLine.toNat} is outside of the {lines} RAM lines"

inductive DeviceError where
  | hardware (fault : HardwareFault)
  | fpga (fault : BoardFault)
  | config (fault : ConfigurationFault)
  | program (error : ProgramError)
  | compile (error : Ppp.CompileError)
  | encoding (error : EncodingError)
deriving Repr

/-- A text that cannot be read at all is reported without a heading. -/
def DeviceError.message : DeviceError → String
  | .hardware fault => "Pulser hardware error: " ++ fault.message
  | .fpga fault => "FPGA error: " ++ fault.code
  | .config .unreadable => ConfigurationFault.unreadable.message
  | .config .unreadableWaveform => ConfigurationFault.unreadableWaveform.message
  | .config fault => "Device configuration error: " ++ fault.message
  | .program error => error.message
  | .compile error => error.text
  | .encoding error => error.message

end PulseSequencer
