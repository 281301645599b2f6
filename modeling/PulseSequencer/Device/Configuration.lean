import PulseSequencer.Device.Error
import PulseSequencer.Document.Xml.Record
import PulseSequencer.Encoding.Word
import PulseSequencer.Program.Basic

/-
# PulseSequencer.Device.Configuration -- what a firmware offers

Every firmware has an id, and a configuration tells what stands behind it: the
sizes of its memories, its converters, and the names of its bits and registers.
-/

namespace PulseSequencer

set_option autoImplicit false

/-- A synthesizer channel and the chip that drives it. -/
structure DdsChannel where
  channel : UInt8
  chip : String
deriving Repr, DecidableEq

/-- A block of converters between numbers and voltages. -/
structure Converter where
  channels : Nat
  encoding : String
deriving Repr, DecidableEq

structure NamedBit where
  name : String
  bit : UInt8
deriving Repr, DecidableEq

/-- A parameter that is written to a register. -/
structure RegisterParameter where
  name : String
  address : UInt16
  encoding : Option String := none
deriving Repr, DecidableEq

structure DeviceConfiguration where
  id : UInt16
  name : String
  limits : MemoryLimits
  dds : List DdsChannel := []
  dac : Option Converter := none
  adc : Option Converter := none
  statusBits : List NamedBit := []
  shutterBits : List NamedBit := []
  triggerBits : List NamedBit := []
  counterBits : List NamedBit := []
  parameters : List RegisterParameter := []
deriving Repr, DecidableEq

/-- The mask of all named bits; none if a name is not there. -/
def maskOf? (bits : List NamedBit) (names : List String) : Option UInt64 :=
  names.foldlM (fun mask name => do
    let b ← bits.find? fun b => b.name == name
    return mask ||| 1 <<< b.bit.toUInt64) 0

namespace DeviceConfiguration

def chip? (c : DeviceConfiguration) (channel : UInt8) : Option String :=
  (c.dds.find? fun d => d.channel == channel).map DdsChannel.chip

/-- The status bits of a word by their names. -/
def status (c : DeviceConfiguration) (word : UInt16) : Table String Bool :=
  Table.ofList (c.statusBits.map fun b => (b.name, word >>> b.bit.toUInt16 &&& 1 == 1))

def parameter? (c : DeviceConfiguration) (name : String) : Option RegisterParameter :=
  c.parameters.find? fun p => p.name == name

def chips : List String := ["AD9912", "AD9910"]

/-- All encodings that a configuration names. -/
def encodings (c : DeviceConfiguration) : List String :=
  (c.dac.toList ++ c.adc.toList).map Converter.encoding ++
    c.parameters.filterMap RegisterParameter.encoding

/-- The first defect of a configuration. -/
def defect? (c : DeviceConfiguration) : Option ConfigurationDefect :=
  if c.limits.code = 0 ∨ c.limits.data = 0 then some .zeroMemory
  else
    let chip := (c.dds.find? fun d => !chips.contains d.chip).map fun d =>
      ConfigurationDefect.unknownChip d.chip
    let encoding := (c.encodings.find? fun e => !(Encoding.lookUp e).isOk).map
      ConfigurationDefect.unknownEncoding
    let statusBit := (c.statusBits.find? fun b => b.bit ≥ 16).map fun b =>
      ConfigurationDefect.statusBit b.name
    let maskBit := ((c.shutterBits ++ c.triggerBits ++ c.counterBits).find? fun b =>
      b.bit ≥ 64).map fun b => ConfigurationDefect.maskBit b.name
    chip <|> encoding <|> statusBit <|> maskBit

end DeviceConfiguration

/-! ## Documents -/

namespace DeviceConfiguration

def ddsOf? (scope : Xml.Scope) (e : Xml.Element) : Option DdsChannel := do
  let r ← e.record? scope ["channel", "chip"] []
  return ⟨UInt8.ofNat (← r.number? 8 "channel"), ← r.text? "chip"⟩

def converterOf? (scope : Xml.Scope) (e : Xml.Element) : Option Converter := do
  let r ← e.record? scope ["channels", "encoding"] []
  return ⟨← r.number? 64 "channels", ← r.text? "encoding"⟩

def bitOf? (scope : Xml.Scope) (e : Xml.Element) : Option NamedBit := do
  let r ← e.record? scope ["name", "bit"] []
  return ⟨← r.text? "name", UInt8.ofNat (← r.number? 8 "bit")⟩

def parameterOf? (scope : Xml.Scope) (e : Xml.Element) : Option RegisterParameter := do
  let r ← e.record? scope ["name", "address", "encoding"] []
  return ⟨← r.text? "name", UInt16.ofNat (← r.number? 16 "address"), ← r.optionalText? "encoding"⟩

def wordsOf? (scope : Xml.Scope) (e : Xml.Element) : Option Nat := do
  (← e.record? scope ["words"] []).number? 64 "words"

/-- The names of the parts of a configuration. -/
def partNames : List String :=
  ["CommandMemory", "DataMemory", "Dds", "Dac", "Adc", "StatusBit", "ShutterBit", "TriggerBit",
    "CounterBit", "ExtendedWire"]

def ofElement? (scope : Xml.Scope) (e : Xml.Element) : Option DeviceConfiguration := do
  let r ← e.record? scope ["id", "name"] partNames
  return { id := UInt16.ofNat (← r.number? 16 "id")
           name := ← r.text? "name"
           limits := ⟨← r.part? wordsOf? "CommandMemory", ← r.part? wordsOf? "DataMemory"⟩
           dds := ← r.list? ddsOf? "Dds"
           dac := ← r.optional? converterOf? "Dac"
           adc := ← r.optional? converterOf? "Adc"
           statusBits := ← r.list? bitOf? "StatusBit"
           shutterBits := ← r.list? bitOf? "ShutterBit"
           triggerBits := ← r.list? bitOf? "TriggerBit"
           counterBits := ← r.list? bitOf? "CounterBit"
           parameters := ← r.list? parameterOf? "ExtendedWire" }

end DeviceConfiguration

/-- The configurations of all firmware that is known. -/
abbrev DeviceCatalog := List DeviceConfiguration

namespace DeviceCatalog

/-- Checks configurations in order, each against the ids before it. -/
def check (seen : List UInt16) : List DeviceConfiguration → Except ConfigurationFault Unit
  | [] => .ok ()
  | c :: rest =>
      if seen.contains c.id then .error (.repeatedId c.id)
      else match c.defect? with
        | some defect => .error (.invalid c.id defect)
        | none => check (c.id :: seen) rest

/-- Reads a document that lists configurations. -/
def parse (text : String) : Except ConfigurationFault DeviceCatalog := do
  let read : Option DeviceCatalog := do
    let root ← (← Xml.parse? text).record? [] [] ["Configuration"]
    root.list? DeviceConfiguration.ofElement? "Configuration"
  match read with
  | none => throw .unreadable
  | some configurations =>
      check [] configurations
      return configurations

def find (catalog : DeviceCatalog) (id : UInt16) : Except ConfigurationFault DeviceConfiguration :=
  match List.find? (fun c => c.id == id) catalog with
  | some c => .ok c
  | none => .error (.unknownHardware id)

/-- Channels from zero on that are driven by the same chip. -/
def ddsChannels (count : Nat) (chip : String) : List DdsChannel :=
  (List.range count).map fun i => ⟨UInt8.ofNat i, chip⟩

/-- The firmware that is known without a document. -/
def standard : DeviceCatalog :=
  [{ id := 1, name := "Pulser, 4 x AD9912", limits := ⟨4096, 4096⟩
     dds := ddsChannels 4 "AD9912"
     dac := some ⟨8, "DAC8568_VOLTAGE"⟩, adc := some ⟨4, "ADC_VOLTAGE"⟩
     statusBits := [⟨"ExternalTrigger", 0⟩, ⟨"ClockLocked", 1⟩, ⟨"PowerGood", 2⟩]
     shutterBits := [⟨"Cooling", 0⟩, ⟨"Repump", 1⟩, ⟨"Detection", 2⟩, ⟨"Raman", 3⟩]
     triggerBits := [⟨"Scope", 0⟩, ⟨"Camera", 1⟩]
     counterBits := [⟨"PMT", 0⟩, ⟨"PMT2", 1⟩, ⟨"Timestamps", 8⟩]
     parameters := [⟨"LineTriggerDelay", 16, some "TIME"⟩, ⟨"DacRampStep", 17, none⟩] },
    { id := 2, name := "Pulser, 8 x AD9910", limits := ⟨16384, 4096⟩
      dds := ddsChannels 8 "AD9910"
      dac := some ⟨16, "AD5791_VOLTAGE"⟩, adc := some ⟨8, "ADC7606_VOLTAGE"⟩
      statusBits := [⟨"ExternalTrigger", 0⟩, ⟨"ClockLocked", 1⟩]
      shutterBits := [⟨"Cooling", 0⟩, ⟨"Repump", 1⟩]
      triggerBits := [⟨"Scope", 0⟩]
      counterBits := [⟨"PMT", 0⟩]
      parameters := [⟨"LineTriggerDelay", 16, some "TIME"⟩] }]

end DeviceCatalog

end PulseSequencer
