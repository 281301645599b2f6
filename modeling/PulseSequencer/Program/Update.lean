import PulseSequencer.Program.Basic

/-
# PulseSequencer.Program.Update -- changing values and encoding update streams

Every change writes the new word into the data image and tells the slots whose
words differ from before, so that a device can be kept in step.
-/

namespace PulseSequencer

set_option autoImplicit false

/-- A program after a change of values. -/
structure Updated where
  program : Program
  changes : List Change := []
  notices : List Notice := []

namespace Program

/-- Puts a variable in the place of the one with its name. -/
def store (p : Program) (v : Variable) : Program :=
  { p with vars := p.vars.insert v.name v, data := p.data.set v.slot v.word }

/-- Stores a variable and reports its slot and word, changed or not. -/
def storeReporting (p : Program) (v : Variable) : Updated :=
  { program := p.store v, changes := [(v.slot, v.word)], notices := v.notices }

/-- The variable with a new value, which replaces any exact mask. -/
def withValue (v : Variable) (value : Quantity) : Variable := { v with value, mask := none }

/-- The variable with an exact mask; other types take the mask as a number. -/
def withMask (v : Variable) (mask : UInt64) : Variable :=
  { v with
    value := .plain mask.toFloat
    mask := if v.type.isMask then some mask else none }

def setVariable (p : Program) (name : String) (value : Quantity) : Except ProgramError Updated := do
  return p.storeReporting (withValue (← p.findVariable name) value)

def setMask (p : Program) (name : String) (mask : UInt64) : Except ProgramError Updated := do
  return p.storeReporting (withMask (← p.findVariable name) mask)

/-- The word of a slot. -/
def wordAt (p : Program) (slot : Nat) : UInt64 := (p.data[slot]?).getD 0

/-- Switches a variable on or off; reports its word if that changed. -/
def setEnabled (p : Program) (name : String) (enabled : Bool) : Updated :=
  match p.find? name with
  | none => { program := p }
  | some v =>
      if v.enabled = enabled then { program := p }
      else
        let v := { v with enabled }
        { program := p.store v
          changes := if p.wordAt v.slot = v.word then [] else [(v.slot, v.word)]
          notices := v.notices }

def unknownNotice (name : String) : Notice :=
  ⟨.warning, .program, "Ignoring update of unknown variable '" ++ name ++ "'"⟩

/-- One change of a series: only a word that differs is reported, and an unknown
name is skipped with a notice. -/
def updateOne {α : Type} (change : Variable → α → Variable) (u : Updated) (name : String)
    (value : α) : Updated :=
  match u.program.find? name with
  | none => { u with notices := u.notices ++ [unknownNotice name] }
  | some v =>
      let new := change v value
      { program := u.program.store new
        changes := if new.word = u.program.wordAt v.slot then u.changes
          else u.changes ++ [(new.slot, new.word)]
        notices := u.notices ++ new.notices }

def updateEach {α : Type} (change : Variable → α → Variable) (p : Program)
    (values : Table String α) : Updated :=
  values.entries.foldl (fun u (name, value) => updateOne change u name value) { program := p }

def updateVariables (p : Program) (values : Table String Quantity) : Updated :=
  updateEach withValue p values

def updateMasks (p : Program) (masks : Table String UInt64) : Updated :=
  updateEach withMask p masks

/-! ## Update streams -/

/-- Set on the address of every pair but the last of an update. -/
def moreFollows : UInt64 := 0x8000000000000000

/-- Pairs of the address of one variable and each of its values. -/
def scanCode (p : Program) (name : String) (values : List Quantity) :
    Except ProgramError (List UInt64) := do
  let v ← p.findVariable name
  let pairs ← values.mapM fun value => do
    return [UInt64.ofNat v.address, ← (v.encodeValue value).mapError .encoding]
  return pairs.flatten

/-- The pair of one variable in an update of `total` variables. -/
def updatePair (p : Program) (total index : Nat) (name : String) (value : Quantity) :
    Except ProgramError (List UInt64) := do
  let v ← p.findVariable name
  let flag := if index + 1 < total then moreFollows else 0
  return [UInt64.ofNat v.address ||| flag, ← (v.encodeValue value).mapError .encoding]

/-- One update of several variables at once. -/
def multiUpdateCode (p : Program) (names : List String) (values : List Quantity) :
    Except ProgramError (List UInt64) := do
  let pairs ← ((names.zip values).zipIdx).mapM fun ((name, value), index) =>
    p.updatePair names.length index name value
  return pairs.flatten

end Program

end PulseSequencer
