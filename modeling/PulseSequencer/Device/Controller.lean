import PulseSequencer.Device.Error
import PulseSequencer.Ppp.Compiler
import PulseSequencer.Program.Assembler
import PulseSequencer.Program.Context
import PulseSequencer.Program.Basic

/-
# PulseSequencer.Device.Controller -- the program and the values it runs with

The values of a program come from its declarations, from a context, and from
overrides; a later source wins over an earlier one.  Overrides stay until they are
replaced, and one-off overrides count for a single image.
-/

namespace PulseSequencer

set_option autoImplicit false

/-- What is loaded into the memories of the device. -/
structure ProgramImages where
  code : Bytes
  data : Bytes
deriving Repr, DecidableEq

structure Controller where
  program : Program := {}
  /-- The declared values. -/
  defaults : Table String Quantity := {}
  /-- The declared masks. -/
  defaultMasks : Table String UInt64 := {}
  context : Option ResolvedContext := none
  overrides : Table String Quantity := {}

namespace Controller

def withLimits (limits : MemoryLimits) : Controller := { program := .withLimits limits }

def setLimits (c : Controller) (limits : MemoryLimits) : Controller :=
  { c with program := { c.program with limits } }

/-- Assembles a source; one whose name says so is compiled first. -/
def build (limits : MemoryLimits) (name text : String) :
    Except DeviceError (Program × List Notice) :=
  if name.endsWith ".ppp" then do
    let assembly ← (Ppp.compile text).mapError .compile
    let (p, notices) ←
      ((Program.withLimits limits).load name assembly.text Library.empty).mapError .program
    return ({ p with lineLookup := assembly.lineLookup }, notices)
  else ((Program.withLimits limits).load name text Library.empty).mapError .program

/-- Takes over a program, its declared values, and those overrides that it still
declares. -/
def install (c : Controller) (p : Program) : Controller × List Notice :=
  let defaults := p.vars.map fun _ v => v.value
  let masks := p.vars.values.filterMap fun v => v.mask.map fun mask => (v.name, mask)
  ({ c with
      program := p
      defaults
      defaultMasks := Table.ofList masks
      overrides := c.overrides.filter fun name _ => defaults.contains name },
    [⟨.info, .controller, s!"Loaded pulse program with {p.code.length} instructions and " ++
      s!"{p.vars.size} variables"⟩])

/-- Loads a source.  The old program stays if that fails. -/
def load (c : Controller) (name text : String) : Except DeviceError (Controller × List Notice) := do
  let (p, notices) ← build c.program.limits name text
  let (c, more) := c.install p
  return (c, notices ++ more)

/-- Assembles the loaded sources again. -/
def assemble (c : Controller) : Except DeviceError (Controller × List Notice) := do
  let (program, notices) ← c.program.assemble.mapError .program
  return ({ c with program }, notices)

def setContext (c : Controller) (context : Option ResolvedContext) : Controller := { c with context }

/-- The pairs whose names are declared. -/
def declared (c : Controller) (values : Table String Quantity) : Table String Quantity :=
  values.filter fun name _ => c.defaults.contains name

/-- Remembers overrides and writes them into the program.  Unknown names are
skipped. -/
def updateVariables (c : Controller) (values : Table String Quantity) :
    Controller × List Change × List Notice :=
  let u := c.program.updateVariables values
  ({ c with
      program := u.program
      overrides := c.overrides.insertAll (c.declared values).entries },
    u.changes, u.notices)

/-- One source of values after another. -/
def thenApply (done : Program × List Notice) (source : Program → Updated) : Program × List Notice :=
  let u := source done.1
  (u.program, done.2 ++ u.notices)

/-- The sources of values, weakest first.  The declared ones come with everything
switched on. -/
def sources (c : Controller) : List (Program → Updated) :=
  [fun p => p.updateVariables c.defaults, fun p => p.updateMasks c.defaultMasks] ++
    c.defaults.keys.map (fun name p => p.setEnabled name true) ++
    (c.context.map ResolvedContext.apply).toList ++
    [fun p => p.updateVariables c.overrides]

def unknownOverride (name : String) : Notice :=
  ⟨.warning, .controller, "Ignoring override of unknown variable '" ++ name ++ "'"⟩

/-- The images with the values of all sources. -/
def images (c : Controller) (overrides : Table String Quantity) :
    Controller × ProgramImages × List Notice :=
  let (p, notices) := c.sources.foldl thenApply (c.program, [])
  let unknown := (overrides.keys.filter fun name => !c.defaults.contains name).map unknownOverride
  let (program, notices) :=
    thenApply (p, notices ++ unknown) fun p => p.updateVariables (c.declared overrides)
  ({ c with program }, { code := program.codeImage, data := program.dataImage }, notices)

/-- The updates that take a variable through values. -/
def scanCode (c : Controller) (name : String) (values : List Quantity) :
    Except DeviceError Bytes := do
  return bytesOfWords (← (c.program.scanCode name values).mapError .program)

def exitcodeName (c : Controller) (code : UInt64) : String := c.program.exitcodeName code

end Controller

end PulseSequencer
