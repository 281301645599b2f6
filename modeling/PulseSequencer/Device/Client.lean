import PulseSequencer.Device.Command
import PulseSequencer.Device.Controller
import PulseSequencer.Device.Waveform
import PulseSequencer.Scan.Generator

/-
# PulseSequencer.Device.Client -- a device and the program that it runs

A client sends one command at a time to the engine and waits for the reply.  While
a run is under way the engine is polled after every command, and the records wait
until somebody takes them.
-/

namespace PulseSequencer

set_option autoImplicit false

structure Client where
  engine : Engine
  controller : Controller
  config : DeviceConfiguration
  /-- Records that nobody took so far, oldest first. -/
  records : List Telemetry.Record := []

namespace Client

def connect (board : Board) (catalog : DeviceCatalog) (settings : EngineSettings)
    (hostTime : UInt64) : Except DeviceError (Client × List Notice) := do
  let (engine, notices) ← Engine.attach board catalog settings hostTime
  return ({ engine, controller := .withLimits engine.config.limits, config := engine.config },
    notices)

abbrev Outcome (α : Type) := Client × Except DeviceError α × List Notice

/-- Polls the engine while a run is under way. -/
def poll (c : Client) : Client × List Notice :=
  if c.engine.state = .idle then (c, [])
  else
    let (engine, records, notices) := c.engine.poll
    ({ c with engine, records := c.records ++ records }, notices)

/-- Performs a command, and then polls. -/
def call (c : Client) (command : EngineCommand) : Outcome EngineReply :=
  let (engine, reply, notices) := c.engine.perform command
  let arrived := match reply with
    | .ok reply => reply.recordsOrNone
    | .error _ => []
  let (c, more) := { c with engine, records := c.records ++ arrived }.poll
  (c, reply, notices ++ more)

/-- The state of the run. -/
def runState (c : Client) : Client × RunState × List Notice :=
  let (after, notices) := c.poll
  (after, c.engine.state, notices)

/-- Replaces the controller by what an operation on it gives. -/
def withController (c : Client) (done : Except DeviceError (Controller × List Notice)) :
    Outcome EngineReply :=
  match done with
  | .ok (controller, notices) => ({ c with controller }, .ok .done, notices)
  | .error error => (c, .error error, [])

def load (c : Client) (name text : String) : Outcome EngineReply :=
  c.withController (c.controller.load name text)

def assemble (c : Client) : Outcome EngineReply := c.withController c.controller.assemble

def setContext (c : Client) (context : Option ResolvedContext) : Outcome EngineReply :=
  c.withController (.ok (c.controller.setContext context, []))

/-- Loads the images of the program onto the device. -/
def upload (c : Client) (overrides : Table String Quantity) : Outcome EngineReply :=
  let (controller, images, notices) := c.controller.images overrides
  let (c, reply, more) := { c with controller }.call (.uploadProgram images)
  (c, reply, notices ++ more)

/-- Changes values, and sends only the words that differ. -/
def updateVariables (c : Client) (values : Table String Quantity) : Outcome EngineReply :=
  let (controller, changes, notices) := c.controller.updateVariables values
  let c := { c with controller }
  if changes.isEmpty then (c, .ok .done, notices)
  else
    let (c, reply, more) := c.call (.writeDataWords changes)
    (c, reply, notices ++ more)

/-- Replaces the firmware, and takes over the configuration that it reports. -/
def uploadBitfile (c : Client) (image : Bytes) : Outcome EngineReply :=
  match Bitfile.parse image with
  | .error fault => (c, .error (.hardware (.bitfile fault)), [])
  | .ok _ =>
      match c.call (.uploadBitfile image) with
      | (c, .error error, notices) => (c, .error error, notices)
      | (c, .ok reply, notices) =>
          let config := c.engine.config
          if config.id = c.config.id then ({ c with config }, .ok reply, notices)
          else
            ({ c with config, controller := c.controller.setLimits config.limits }, .ok reply,
              notices ++ [⟨.info, .client, s!"Switching to configuration '{config.name}'"⟩])

/-- Writes a waveform to the large memory. -/
def uploadWaveform (c : Client) (address : UInt64) (w : Waveform) : Outcome EngineReply :=
  match w.image with
  | .error error => (c, .error (.encoding error), [])
  | .ok image => c.call (.writeMemory address image)

/-- Sends the updates of a measurement that the device has room for, and tells how
many bytes that were. -/
def feed (c : Client) (g : Generator) : Outcome Nat × Generator :=
  let (g, burst) := (g.withWindow c.engine.settings.maxWordsInFifo).nextBurst
  if burst.isEmpty then ((c, .ok 0, []), g)
  else
    let (c, reply, notices) := c.call (.writeFifo burst)
    ((c, reply.map fun _ => burst.length, notices), g)

/-- Polls until so many records wait, but no longer than the board has telemetry for
a poll. -/
def await (c : Client) (count : Nat) : Nat → Client × List Notice
  | 0 => (c, [])
  | polls + 1 =>
      if count ≤ c.records.length then (c, [])
      else
        let (c, notices) := c.poll
        let (c, more) := c.await count polls
        (c, notices ++ more)

/-- Takes the oldest records, for which it waits. -/
def take (c : Client) (count : Nat) : Client × List Telemetry.Record × List Notice :=
  let (c, notices) := c.await count (c.engine.board.telemetry.length + 1)
  ({ c with records := c.records.drop count }, c.records.take count, notices)

end Client

end PulseSequencer
