import PulseSequencer.Device.Bitfile
import PulseSequencer.Device.Configuration
import PulseSequencer.Device.LogicAnalyzer
import PulseSequencer.Device.Transfer
import PulseSequencer.Scan.UpdateStream
import PulseSequencer.Telemetry.Record

/-
# PulseSequencer.Device.Engine -- running the board

The engine loads programs onto the board, starts and stops runs, and gathers what
the board reports.  A run ends when its final record is read, whoever ended it.
-/

namespace PulseSequencer

set_option autoImplicit false

open Telemetry (Assembler Record)

structure EngineSettings where
  /-- Bytes of a transfer to or from the large memory. -/
  quantum : Nat := 0x100000
  /-- How many words of updates the board may hold. -/
  maxWordsInFifo : Nat := defaultWindow
  /-- How many realignments in a row a capture may need. -/
  maxMisalignments : Nat := 16
  /-- How often to look for the end of a run that was stopped. -/
  stopPolls : Nat := 100
deriving Repr, DecidableEq

structure Engine where
  board : Board
  settings : EngineSettings
  catalog : DeviceCatalog
  config : DeviceConfiguration
  assembler : Assembler := {}
  capture : LogicAnalyzer.Decoder
  state : RunState := .idle

namespace Engine

def notice (severity : Severity) (text : String) : Notice := ⟨severity, .engine, text⟩

/-- Finds the configuration of a board, and starts its clock. -/
def attach (board : Board) (catalog : DeviceCatalog) (settings : EngineSettings)
    (hostTime : UInt64) : Except DeviceError (Engine × List Notice) := do
  let id := board.wire .hardwareId
  let config ← (catalog.find id).mapError .config
  return ({ board, settings, catalog, config
            assembler := { hostTime, clockOffset := hostTime }
            capture := { tolerance := settings.maxMisalignments } },
    [notice .info s!"Opened pulser '{config.name}' with hardware id {hexText id.toNat}"])

/-! ## Uploads -/

/-- Loads firmware, which ends any run.  The new firmware may be unknown, and then
the old configuration stays. -/
def uploadBitfile (e : Engine) (image : Bytes) :
    Engine × Except DeviceError BitfileInfo × List Notice :=
  match Bitfile.parse image with
  | .error fault => (e, .error (.hardware (.bitfile fault)), [])
  | .ok info =>
      let uploading := notice .info
        (s!"Uploading bitfile '{info.design}' for {info.part} built {info.date} {info.time}, " ++
          s!"md5 {info.md5}")
      match e.board.configure image with
      | .error fault => (e, .error (.fpga fault), [uploading])
      | .ok board =>
          let assembler := e.assembler.reset.synchronize
          let e := { e with board, state := .idle, assembler }
          let id := board.wire .hardwareId
          if id = e.config.id then (e, .ok info, [uploading])
          else match e.catalog.find id with
            | .error fault => (e, .error (.config fault), [uploading])
            | .ok config => ({ e with config }, .ok info, [uploading, notice .info
                s!"Firmware reports hardware id {hexText id.toNat}, using '{config.name}'"])

def writeRegisters (e : Engine) (writes : List RegisterWrite) : Engine :=
  { e with board := e.board.write .registers (frames writes) }

/-- Loads a program, if the memories hold it.  Bytes of a word that is not complete
do not count. -/
def uploadProgram (e : Engine) (code data : Bytes) : Except HardwareFault Engine :=
  let limits := e.config.limits
  if code.length / 4 > limits.code then .error (.codeSize (code.length / 4) limits.code)
  else if data.length / 8 > limits.data then .error (.dataSize (data.length / 8) limits.data)
  else
    let e := e.writeRegisters
      [(Register.codeAddress.address, 0), (Register.dataAddress.address, 0)]
    .ok { e with board := (e.board.write .code code).write .data data }

/-- The register of a slot of the data memory. -/
def slotRegister (limits : MemoryLimits) (slot : Nat) : Except HardwareFault UInt16 :=
  if slot < limits.data ∧ slot + Register.dataBase.toNat < 0x10000 then
    .ok (UInt16.ofNat (slot + Register.dataBase.toNat))
  else .error (.slotRange slot)

/-- Overwrites words of the data memory, or none if a slot is outside of it. -/
def writeDataWords (e : Engine) (words : List Change) : Except HardwareFault Engine := do
  if words.isEmpty then return e
  let writes ← words.mapM fun (slot, word) => do
    return (← slotRegister e.config.limits slot, word)
  return e.writeRegisters writes

/-- Writes a parameter that the configuration names. -/
def setParameter (e : Engine) (name : String) (value : Quantity) : Except DeviceError Engine :=
  match e.config.parameter? name with
  | none => .error (.config (.unknownParameter name))
  | some p => do
      let word ← (encode value p.encoding).mapError .encoding
      return e.writeRegisters [(p.address, word)]

/-- Adds updates to those that wait on the board. -/
def writeFifo (e : Engine) (bytes : Bytes) : Engine :=
  { e with board := e.board.write .inputFifo bytes }

/-! ## Runs -/

def trigger (e : Engine) (t : Trigger) : Engine := { e with board := e.board.trigger t }

/-- Refuses an action outside of some states. -/
def requireState (e : Engine) (action : RunAction) (allowed : List RunState) :
    Except HardwareFault Unit :=
  if allowed.contains e.state then .ok () else .error (.notAllowed action e.state)

/-- Starts a run; nothing of an earlier one is kept on this side. -/
def start (e : Engine) : Except HardwareFault Engine := do
  e.requireState .start [.idle]
  return { e.trigger .start with state := .running, assembler := e.assembler.reset }

def pause (e : Engine) : Except HardwareFault Engine := do
  e.requireState .pause [.running]
  return { e.trigger .pause with state := .paused }

def resume (e : Engine) : Except HardwareFault Engine := do
  e.requireState .resume [.paused]
  return { e.trigger .resume with state := .running }

/-- Asks the program to end at its next opportunity. -/
def interrupt (e : Engine) : Except HardwareFault Engine := do
  e.requireState .interrupt [.running, .paused]
  return e.trigger .interrupt

/-- Forgets the run without talking to the board. -/
def abandon (e : Engine) : Engine := { e with state := .idle, assembler := e.assembler.reset }

/-- Closes the current record if the board lost telemetry. -/
def closeOverrun (e : Engine) : Engine × List Record × List Notice :=
  let (assembler, record) := e.assembler.closeOverrun
  ({ e with assembler }.trigger .clearOverrun, [record],
    [notice .warning "Telemetry FIFO overrun, the current record is incomplete"])

/-- Reads the whole words that wait, and tells the records that they complete. -/
def poll (e : Engine) : Engine × List Record × List Notice :=
  let status := e.board.wire .telemetryStatus
  let waiting := (status &&& UInt16.ofNat Board.waitingMask).toNat * 2
  let (board, bytes) := e.board.read .telemetry (waiting / 8 * 8)
  let (assembler, records, notices) := e.assembler.feed bytes
  let e := { e with board, assembler }
  let (e, closed, more) :=
    if status &&& Board.overrunBit ≠ 0 then e.closeOverrun else (e, [], [])
  let records := (records ++ closed).map fun r =>
    { r with externalStatus := some (e.board.wire .externalStatus) }
  ({ e with state := if records.any Record.isFinal then .idle else e.state }, records,
    notices ++ more)

/-- Polls up to `count` times, and no further than to a final record. -/
def drain (e : Engine) : Nat → Engine × List Record × List Notice
  | 0 => (e, [], [])
  | count + 1 =>
      let (e, records, notices) := e.poll
      if records.any Record.isFinal then (e, records, notices)
      else
        let (e, later, more) := e.drain count
        (e, records ++ later, notices ++ more)

/-- Stops the run, and tells the records up to its end. -/
def stop (e : Engine) : Engine × List Record × List Notice :=
  if e.state = .idle then (e, [], [])
  else
    let stopping := ({ e with state := .stopping }.trigger .stop).trigger .clearInputFifo
    let (e, records, notices) := stopping.drain e.settings.stopPolls
    if e.state = .idle then (e, records, notices)
    else (e.abandon, records,
      notices ++ [notice .warning "No end of run seen after stopping the pulser"])

/-! ## Other data -/

/-- Reads the captured events that wait. -/
def readCapture (e : Engine) :
    Engine × Except HardwareFault (List LogicAnalyzer.Event) × List Notice :=
  let waiting := (e.board.wire .captureStatus).toNat * 2
  if waiting = 0 then (e, .ok [], [])
  else
    let (board, bytes) := e.board.read .capture waiting
    let (capture, events, notices) := e.capture.feed bytes
    ({ e with board, capture }, events, notices)

def writeMemory (e : Engine) (address : UInt64) (bytes : Bytes) :
    Engine × Except HardwareFault Unit :=
  let (board, done) := e.board.writeMemory address bytes e.settings.quantum
  ({ e with board }, done)

def readMemory (e : Engine) (address : UInt64) (length : Nat) :
    Except HardwareFault (Engine × Bytes) := do
  let (board, bytes) ← e.board.readMemory address length e.settings.quantum
  return ({ e with board }, bytes)

/-- The status bits by their names. -/
def externalStatus (e : Engine) : Table String Bool :=
  e.config.status (e.board.wire .externalStatus)

end Engine

end PulseSequencer
