import PulseSequencer.Number.Arithmetic
import PulseSequencer.Number.Binary

/-
# PulseSequencer.Encoding.Basic -- magnitudes as fixed-width words

An encoding divides a magnitude by its step, rounds to the nearest step count
(ties to the even one), checks the count against the range, and lays it out as
unsigned, two's-complement or offset binary.  Phases are periodic: their step
count wraps around instead of leaving the range.

Everything here is stated over any type of magnitudes that can be divided and
rounded.  `Float` is what a sequencer is programmed with; `Rat` is the exact
reading of the same table.
-/

namespace PulseSequencer

set_option autoImplicit false

/-- Numbers that magnitudes, steps and limits are written in. -/
class Magnitude (α : Type) extends Mul α, Div α, Neg α, OfScientific α where
  ofInt : Int → α
  /-- The nearest integer, ties to the even one. -/
  nearest : α → Int

/-- The nearest integer of a rational number, ties to the even one. -/
def nearestInt (x : Rat) : Int :=
  let whole := x.floor
  let fraction := x - whole
  if fraction < 1 / 2 then whole
  else if 1 / 2 < fraction then whole + 1
  else if whole % 2 = 0 then whole else whole + 1

instance : Magnitude Rat where
  ofInt n := n
  nearest := nearestInt

/-- Step counts of doubles are held inside the signed 128-bit range. -/
instance : Magnitude Float where
  ofInt := Float.ofInt
  nearest := Number.roundWithin .halfToEven (-pow2 127) (pow2 127 - 1)

/-- How negative step counts are laid out. -/
inductive Representation where
  | unsigned
  | twosComplement
  | offset
deriving Repr, DecidableEq

/-- Words of `bits` bits for magnitudes from `lower` up to, but not including,
`upper`, all in `unit`. -/
structure Encoding (α : Type) where
  name : String
  bits : Nat
  maskBits : Nat
  unit : String
  representation : Representation
  step : α
  lower : α
  upper : α
  periodic : Bool := false

namespace Encoding

variable {α : Type} [Magnitude α]

/-- From zero up to `upper`, in `2^bits` steps. -/
def unsigned (name : String) (bits : Nat) (unit : String) (upper : α) : Encoding α :=
  { name, bits, maskBits := bits, unit, representation := .unsigned
    step := upper / Magnitude.ofInt (pow2 bits), lower := Magnitude.ofInt 0, upper }

/-- From `-half` up to `half`, in `2^bits` steps. -/
def signed (name : String) (bits : Nat) (unit : String) (half : α)
    (representation : Representation) : Encoding α :=
  { name, bits, maskBits := bits, unit, representation
    step := Magnitude.ofInt 2 * half / Magnitude.ofInt (pow2 bits), lower := -half, upper := half }

def mask (e : Encoding α) : Nat := pow2 (min e.maskBits 64) - 1

def minSteps (e : Encoding α) : Int := Magnitude.nearest (e.lower / e.step)

def maxSteps (e : Encoding α) : Int := Magnitude.nearest (e.upper / e.step)

/-- The step count that is laid out: itself inside the range, its remainder where
the range is a period, nothing outside. -/
def admit? (e : Encoding α) (steps : Int) : Option Int :=
  if e.periodic ∧ e.minSteps = 0 then some (steps % e.maxSteps)
  else if steps < e.minSteps ∨ e.maxSteps ≤ steps then none
  else some steps

def layOut (e : Encoding α) (steps : Int) : UInt64 :=
  let raw := match e.representation with
    | .offset => steps - e.minSteps
    | .unsigned | .twosComplement => steps
  UInt64.ofInt raw &&& UInt64.ofNat e.mask

/-- The word of a step count. -/
def encodeSteps? (e : Encoding α) (steps : Int) : Option UInt64 :=
  (e.admit? steps).map e.layOut

/-- The word of a magnitude in the encoding's unit. -/
def encode? (e : Encoding α) (magnitude : α) : Option UInt64 :=
  e.encodeSteps? (Magnitude.nearest (magnitude / e.step))

/-- The step count that a word stands for. -/
def decodeSteps (e : Encoding α) (word : UInt64) : Int :=
  let masked := Int.ofNat (word &&& UInt64.ofNat e.mask).toNat
  match e.representation with
  | .unsigned => masked
  | .twosComplement => masked.bmod (pow2 (min e.maskBits 64))
  | .offset => masked + e.minSteps

/-- The magnitude in the encoding's unit that a word stands for. -/
def decode (e : Encoding α) (word : UInt64) : α :=
  Magnitude.ofInt (e.decodeSteps word) * e.step

/-! ## The table -/

/-- The encodings of the converters and synthesizers, the timer, and the two
plain 64-bit integers. -/
def table : List (Encoding α) :=
  [ unsigned "AD9912_FRQ" 48 "Hz" 1e9,
    { signed "AD9912_FRQ_SIGNED" 48 "Hz" 5e8 .twosComplement with maskBits := 64 },
    unsigned "AD9910_FRQ" 32 "Hz" 1e9,
    { unsigned "AD9912_PHASE" 14 "deg" 360.0 with periodic := true },
    { unsigned "AD9910_PHASE" 16 "deg" 360.0 with periodic := true },
    unsigned "AD9910_AMPLITUDE" 14 "" 1.0,
    unsigned "ADC_VOLTAGE" 12 "V" 5.0,
    unsigned "ADCTI122S101_VOLTAGE" 12 "V" 3.33,
    unsigned "DAC8568_VOLTAGE" 16 "V" 5.0,
    signed "AD5791_VOLTAGE" 20 "V" 5.0 .twosComplement,
    signed "ADC24_VOLTAGE" 24 "V" 5.0 .twosComplement,
    signed "ADC7606_VOLTAGE" 16 "V" 5.0 .twosComplement,
    signed "ADC7606_VOLTAGE_OFFSET" 16 "V" 5.0 .offset,
    { unsigned "TIME" 48 "ns" (Magnitude.ofInt (5 * pow2 48)) with step := 5.0 },
    { unsigned "UINT64" 64 "" (Magnitude.ofInt (pow2 64)) with step := 1.0 },
    { signed "INT64" 64 "" (Magnitude.ofInt (pow2 63)) .twosComplement with step := 1.0 } ]

/-- The timer counts clock cycles of five nanoseconds. -/
def timeName : String := "TIME"

def frequencyName : String := "AD9912_FRQ"

def integerName : String := "INT64"

def find? (name : String) : Option (Encoding α) := table.find? fun e => e.name == name

end Encoding

end PulseSequencer
