import PulseSequencer.Device.Endpoint
import PulseSequencer.Device.Error
import PulseSequencer.Device.Memory
import PulseSequencer.Telemetry.Token

/-
# PulseSequencer.Device.Board -- a board that is all memory

The board keeps what is written to it and reports what it was told to report.  It
executes no program: a run sends the telemetry that was laid down for runs, and
ends when it is stopped or interrupted.
-/

namespace PulseSequencer

set_option autoImplicit false

structure Board where
  hardwareId : UInt16 := 0
  externalStatus : UInt16 := 0
  /-- The firmware image that was loaded last. -/
  bitfile : Option Bytes := none
  /-- How many images were loaded. -/
  configurations : Nat := 0
  code : Bytes := []
  data : Bytes := []
  /-- Where code goes, in instructions. -/
  codeAddress : UInt64 := 0
  /-- Where data goes, in words. -/
  dataAddress : UInt64 := 0
  memory : LargeMemory := {}
  memoryWriteAddress : UInt64 := 0
  memoryReadAddress : UInt64 := 0
  memoryReadLength : UInt64 := 0
  /-- How many transfers to the large memory there were. -/
  memoryWrites : Nat := 0
  /-- Where the large memory reads back wrong. -/
  corruptAt : Option UInt64 := none
  inputFifo : Bytes := []
  /-- Telemetry that waits. -/
  telemetry : Bytes := []
  /-- What every run sends when it starts. -/
  runTelemetry : Bytes := []
  /-- Whether telemetry was lost. -/
  overrun : Bool := false
  /-- Captured events that wait. -/
  capture : Bytes := []
  /-- All triggers so far. -/
  triggers : List UInt8 := []
  /-- All register writes so far. -/
  written : List RegisterWrite := []
  running : Bool := false
  paused : Bool := false
deriving Repr, DecidableEq

namespace Board

/-- What a run tells when it was interrupted. -/
def softStop : UInt64 := 0xfffe100000000000

/-- Loads a firmware image. -/
def configure (b : Board) (image : Bytes) : Except BoardFault Board :=
  if image.isEmpty then .error .invalidBitstream
  else .ok { b with
    bitfile := some image
    configurations := b.configurations + 1
    running := false
    telemetry := [] }

/-! ## Wires -/

def waitingMask : Nat := 0x3fff

def overrunBit : UInt16 := 0x4000

def wire (b : Board) : Wire → UInt16
  | .hardwareId => b.hardwareId
  | .telemetryStatus =>
      let waiting := UInt16.ofNat (min (b.telemetry.length / 2) waitingMask)
      if b.overrun then waiting ||| overrunBit else waiting
  | .captureStatus => UInt16.ofNat (min (b.capture.length / 2) 0xffff)
  | .externalStatus => b.externalStatus

/-! ## Triggers -/

/-- What a trigger does. -/
def act (b : Board) : Trigger → Board
  | .start =>
      { b with running := true, paused := false, telemetry := b.telemetry ++ b.runTelemetry }
  | .stop =>
      if b.running then
        { b with running := false, telemetry := b.telemetry ++ bytesOfWord Variable.endOfRun }
      else b
  | .clearOverrun => { b with overrun := false }
  | .interrupt =>
      if b.running then
        { b with running := false, telemetry := b.telemetry ++ bytesOfWord softStop }
      else b
  | .pause => { b with paused := true }
  | .resume => { b with paused := false }
  | .clearInputFifo => { b with inputFifo := [] }

/-- Takes a trigger by its bit; bits without a meaning are only noted. -/
def triggerBit (b : Board) (bit : UInt8) : Board :=
  let b := { b with triggers := b.triggers ++ [bit] }
  match Trigger.ofBit? bit with
  | some t => b.act t
  | none => b

def trigger (b : Board) (t : Trigger) : Board := b.triggerBit t.bit

/-! ## Pipes -/

def writeRegister (b : Board) (w : RegisterWrite) : Board :=
  let b := { b with written := b.written ++ [w] }
  match Register.ofAddress? w.1 with
  | some .codeAddress => { b with codeAddress := w.2 }
  | some .dataAddress => { b with dataAddress := w.2 }
  | some .memoryWriteAddress => { b with memoryWriteAddress := w.2 }
  | some .memoryReadAddress => { b with memoryReadAddress := w.2 }
  | some .memoryReadLength => { b with memoryReadLength := w.2 }
  | none =>
      if w.1 < Register.dataBase then b
      else
        let slot := (w.1 - Register.dataBase).toNat
        { b with data := storeAt b.data (slot * 8) (bytesOfWord w.2) }

def write (b : Board) (pipe : InPipe) (bytes : Bytes) : Board :=
  match pipe with
  | .registers => (parseFrames bytes).foldl writeRegister b
  | .code => { b with code := storeAt b.code (b.codeAddress * 4).toNat bytes }
  | .data => { b with data := storeAt b.data (b.dataAddress * 8).toNat bytes }
  | .inputFifo => { b with inputFifo := b.inputFifo ++ bytes }
  | .memory =>
      { b with
        memory := b.memory.write b.memoryWriteAddress.toNat bytes
        memoryWriteAddress := b.memoryWriteAddress + UInt64.ofNat bytes.length
        memoryWrites := b.memoryWrites + 1 }

/-- What the large memory shows at an address. -/
def memoryByte (b : Board) (address : UInt64) : UInt8 :=
  let byte := b.memory.byteAt address.toNat
  if b.corruptAt = some address then ~~~byte else byte

/-- Takes at most `length` bytes out of a pipe.  The large memory gives no more
than was asked for before, and keeps what it gives. -/
def read (b : Board) (pipe : OutPipe) (length : Nat) : Board × Bytes :=
  match pipe with
  | .telemetry => ({ b with telemetry := b.telemetry.drop length }, b.telemetry.take length)
  | .capture => ({ b with capture := b.capture.drop length }, b.capture.take length)
  | .memory =>
      let count := min length b.memoryReadLength.toNat
      (b, (List.range count).map fun i => b.memoryByte (b.memoryReadAddress + UInt64.ofNat i))

/-! ## Access by address -/

def wireAt (b : Board) (address : UInt8) : Except BoardFault UInt16 :=
  match Wire.ofAddress? address with
  | some w => .ok (b.wire w)
  | none => .error .invalidEndpoint

def triggerAt (b : Board) (address bit : UInt8) : Except BoardFault Board :=
  if address = Trigger.endpoint then .ok (b.triggerBit bit) else .error .invalidEndpoint

def writeAt (b : Board) (address : UInt8) (bytes : Bytes) : Except BoardFault Board :=
  match InPipe.ofAddress? address with
  | some pipe => .ok (b.write pipe bytes)
  | none => .error .invalidEndpoint

def readAt (b : Board) (address : UInt8) (length : Nat) : Except BoardFault (Board × Bytes) :=
  match OutPipe.ofAddress? address with
  | some pipe => .ok (b.read pipe length)
  | none => .error .invalidEndpoint

end Board

end PulseSequencer
