import PulseSequencer.Encoding.Basic
import PulseSequencer.Units.Quantity

/-
# PulseSequencer.Encoding.Word -- quantities to device words and back

A plain number is taken in the encoding's unit; a dimensioned quantity is
converted first.  Where no encoding is named, plain values are 64-bit integers,
times count clock cycles, and frequencies are synthesizer tuning words.
-/

namespace PulseSequencer

set_option autoImplicit false

/-- Why a quantity has no word. -/
inductive EncodingError where
  | outOfRange (encoding value : String) (lower upper : Float)
  | unknownEncoding (name : String)
  | noDefaultEncoding (dimension : Dimension)
  | notFinite (magnitude : Float)
  | unit (error : UnitError)
deriving Repr

def EncodingError.message : EncodingError → String
  | .outOfRange encoding value lower upper =>
      "Value " ++ value ++ " is out of range [" ++ Number.plain lower ++ ", " ++
        Number.plain upper ++ ") for encoding '" ++ encoding ++ "'"
  | .unknownEncoding name => "Unknown encoding '" ++ name ++ "'"
  | .noDefaultEncoding dimension =>
      "No default encoding for a quantity of dimension " ++ dimension.text
  | .notFinite magnitude => "Value " ++ Number.plain magnitude ++ " is not finite"
  | .unit error => error.message

namespace Encoding

def lookUp (name : String) : Except EncodingError (Encoding Float) :=
  match find? name with
  | some e => .ok e
  | none => .error (.unknownEncoding name)

def unitOf (e : Encoding Float) : Except EncodingError PhysicalUnit :=
  (PhysicalUnit.parse e.unit).mapError .unit

def outOfRange (e : Encoding Float) (value : String) : EncodingError :=
  .outOfRange e.name value e.lower e.upper

/-- The magnitude of a quantity in the encoding's unit. -/
def magnitudeOf (e : Encoding Float) (q : Quantity) : Except EncodingError Float :=
  if q.isPlain then .ok q.magnitude
  else do (q.magnitudeIn (← e.unitOf)).mapError .unit

def encodeQuantity (e : Encoding Float) (q : Quantity) : Except EncodingError UInt64 := do
  let magnitude ← e.magnitudeOf q
  if !magnitude.isFinite then throw (.notFinite magnitude)
  match e.encode? magnitude with
  | some word => return word
  | none => throw (e.outOfRange q.text)

/-- Exact where the step is one; other encodings take the number as a double. -/
def encodeInt (e : Encoding Float) (n : Int) : Except EncodingError UInt64 :=
  if e.step == 1.0 then
    match e.encodeSteps? n with
    | some word => .ok word
    | none => .error (e.outOfRange (toString n))
  else e.encodeQuantity (.plain (Float.ofInt n))

/-- The encoding of a value that was declared without one. -/
def default (dimension : Dimension) : Except EncodingError (Encoding Float) :=
  if dimension = .none then lookUp integerName
  else if dimension = { time := 1 } then lookUp timeName
  else if dimension = { time := -1 } then lookUp frequencyName
  else .error (.noDefaultEncoding dimension)

end Encoding

/-- The word of a quantity under a named encoding, or the default one. -/
def encode (q : Quantity) (name : Option String) : Except EncodingError UInt64 := do
  let e ← match name with
    | some name => Encoding.lookUp name
    | none => Encoding.default q.dimension
  e.encodeQuantity q

/-- The word of an integer, without a detour through a double. -/
def encodeInt (n : Int) (name : Option String) : Except EncodingError UInt64 := do
  (← Encoding.lookUp (name.getD Encoding.integerName)).encodeInt n

/-- The magnitude of a word in the encoding's unit. -/
def decode (word : UInt64) (name : Option String) : Except EncodingError Float := do
  return (← Encoding.lookUp (name.getD Encoding.integerName)).decode word

/-- The quantity that a word stands for. -/
def decodeQuantity (word : UInt64) (name : Option String) : Except EncodingError Quantity := do
  let e ← Encoding.lookUp (name.getD Encoding.integerName)
  return ⟨e.decode word, ← e.unitOf⟩

end PulseSequencer
