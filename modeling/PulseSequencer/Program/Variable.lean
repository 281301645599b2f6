import PulseSequencer.Encoding.Word
import PulseSequencer.Notice

/-
# PulseSequencer.Program.Variable -- named cells of data memory

A variable has a declared type, a value, and a place.  Shutter, trigger and
counter variables are bit patterns: their exact mask takes precedence over the
value, which as a double cannot hold all 64 bits.
-/

namespace PulseSequencer

set_option autoImplicit false

inductive VariableType where
  | parameter
  | shutter
  | trigger
  /-- Selects the active counters. -/
  | counter
  /-- Holds a counter reading. -/
  | count
  | exitcode
  | address
  | const
deriving Repr, DecidableEq

namespace VariableType

def name : VariableType → String
  | .parameter => "parameter"
  | .shutter => "shutter"
  | .trigger => "trigger"
  | .counter => "counter"
  | .count => "count"
  | .exitcode => "exitcode"
  | .address => "address"
  | .const => "const"

def ofName? : String → Option VariableType
  | "parameter" => some .parameter
  | "shutter" => some .shutter
  | "masked_shutter" => some .shutter
  | "trigger" => some .trigger
  | "counter" => some .counter
  | "count" => some .count
  | "exitcode" => some .exitcode
  | "address" => some .address
  | "const" => some .const
  | _ => none

/-- Whether values are bit patterns rather than physical quantities. -/
def isMask : VariableType → Bool
  | .shutter | .trigger | .counter => true
  | _ => false

end VariableType

structure Variable where
  name : String
  type : VariableType
  value : Quantity
  unit : Option String := none
  encoding : Option String := none
  /-- The exact bit pattern of a mask variable. -/
  mask : Option UInt64 := none
  /-- The index of the word in the data image. -/
  slot : Nat := 0
  /-- The address of the word in bytes. -/
  address : Nat := 0
  enabled : Bool := true
  comment : Option String := none
  /-- The text that the declared value was computed from. -/
  expression : Option String := none

namespace Variable

/-- The number of bytes of a data word. -/
def wordBytes : Nat := 8

/-- The upper 16 bits of every exit code. -/
def exitcodePrefix : UInt64 := 0xfffe000000000000

/-- The exit code of a program that ran to its end. -/
def endOfRun : UInt64 := 0xffffffffffffffff

/-- The bits of an exit code below its upper 16. -/
def exitcodePayload : UInt64 := 0x0000ffffffffffff

/-- A plain whole number that fits 64 bits with room to spare. -/
def wholeNumber? (q : Quantity) : Option Int :=
  if q.isPlain && Number.isWhole q.magnitude && q.magnitude.abs < 9.2e18 then
    some (Number.toInt64 q.magnitude)
  else none

/-- Whole numbers are encoded as integers, everything else as a quantity. -/
def encodeWhole (value : Quantity) (encoding : Option String) : Except EncodingError UInt64 :=
  match wholeNumber? value with
  | some n => PulseSequencer.encodeInt n encoding
  | none => PulseSequencer.encode value encoding

/-- The word of a value under the type and encoding of a variable. -/
def encodeValue (v : Variable) (value : Quantity) : Except EncodingError UInt64 :=
  match v.type with
  | .parameter | .const => PulseSequencer.encode value v.encoding
  | .exitcode => do
      let code ← encodeWhole value none
      return exitcodePrefix ||| (code &&& exitcodePayload)
  | _ => encodeWhole value v.encoding

/-- The word of the current value. -/
def encode (v : Variable) : Except EncodingError UInt64 :=
  match v.mask with
  | some mask => if v.type.isMask then .ok mask else v.encodeValue v.value
  | none => v.encodeValue v.value

/-- The word in the data image: zero if the variable is disabled or has no word. -/
def word (v : Variable) : UInt64 :=
  if v.enabled then v.encode.toOption.getD 0 else 0

/-- A warning if an enabled variable has no word. -/
def notices (v : Variable) : List Notice :=
  match v.enabled, v.encode with
  | true, .error e =>
      [⟨.warning, .program,
        "Variable '" ++ v.name ++ "' cannot be encoded, using 0: " ++ e.message⟩]
  | _, _ => []

def placed (v : Variable) (slot : Nat) : Variable :=
  { v with slot, address := slot * wordBytes }

end Variable

end PulseSequencer
