import PulseSequencer.Device.Controller
import PulseSequencer.Device.Engine

/-
# PulseSequencer.Device.Command -- what can be asked of an engine

Every use of an engine is a command, and every command has one reply.
-/

namespace PulseSequencer

set_option autoImplicit false

inductive EngineCommand where
  | start
  | stop
  | pause
  | resume
  | interrupt
  | abandon
  | poll
  | uploadBitfile (image : Bytes)
  | uploadProgram (images : ProgramImages)
  | writeDataWords (words : List Change)
  | writeRegisters (writes : List RegisterWrite)
  | setParameter (name : String) (value : Quantity)
  | writeFifo (bytes : Bytes)
  | writeMemory (address : UInt64) (bytes : Bytes)
  | readMemory (address : UInt64) (length : Nat)
  | readCapture
  | externalStatus

inductive EngineReply where
  | done
  | records (rs : List Telemetry.Record)
  | bitfile (info : BitfileInfo)
  | memory (bytes : Bytes)
  | capture (events : List LogicAnalyzer.Event)
  | status (bits : Table String Bool)

namespace EngineReply

/-- The records of a reply, if it has any. -/
def recordsOrNone : EngineReply → List Telemetry.Record
  | records rs => rs
  | _ => []

end EngineReply

namespace Engine

/-- An engine after a command, the reply, and the notices. -/
abbrev Outcome := Engine × Except DeviceError EngineReply × List Notice

/-- A command that changes the engine or leaves it as it is. -/
def changed (e : Engine) (done : Except DeviceError Engine) : Outcome :=
  match done with
  | .ok e => (e, .ok .done, [])
  | .error error => (e, .error error, [])

def perform (e : Engine) : EngineCommand → Outcome
  | .start => e.changed (e.start.mapError .hardware)
  | .stop => (e.stop.1, .ok (.records e.stop.2.1), e.stop.2.2)
  | .pause => e.changed (e.pause.mapError .hardware)
  | .resume => e.changed (e.resume.mapError .hardware)
  | .interrupt => e.changed (e.interrupt.mapError .hardware)
  | .abandon => e.changed (.ok e.abandon)
  | .poll => (e.poll.1, .ok (.records e.poll.2.1), e.poll.2.2)
  | .uploadBitfile image =>
      let (e, info, notices) := e.uploadBitfile image
      (e, info.map .bitfile, notices)
  | .uploadProgram images => e.changed ((e.uploadProgram images.code images.data).mapError .hardware)
  | .writeDataWords words => e.changed ((e.writeDataWords words).mapError .hardware)
  | .writeRegisters writes => e.changed (.ok (e.writeRegisters writes))
  | .setParameter name value => e.changed (e.setParameter name value)
  | .writeFifo bytes => e.changed (.ok (e.writeFifo bytes))
  | .writeMemory address bytes =>
      let (e, done) := e.writeMemory address bytes
      (e, (done.mapError .hardware).map fun () => .done, [])
  | .readMemory address length =>
      match e.readMemory address length with
      | .ok (e, bytes) => (e, .ok (.memory bytes), [])
      | .error fault => (e, .error (.hardware fault), [])
  | .readCapture =>
      let (e, events, notices) := e.readCapture
      (e, (events.mapError .hardware).map .capture, notices)
  | .externalStatus => (e, .ok (.status e.externalStatus), [])

end Engine

end PulseSequencer
