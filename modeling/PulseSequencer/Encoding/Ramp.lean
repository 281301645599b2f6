import PulseSequencer.Encoding.Word
import PulseSequencer.Number.Binary

/-
# PulseSequencer.Encoding.Ramp -- registers of the digital ramp generator

The step register has 32 bits: frequency steps fill it, phase and amplitude steps
stand at its upper end.  The rate register counts cycles of the synchronisation
clock in 16 bits.
-/

namespace PulseSequencer.Ramp

set_option autoImplicit false

/-- What the ramp generator drives. -/
inductive Target where
  | frequency
  | phase
  | amplitude
deriving Repr, DecidableEq

/-- The period of the clock that counts ramp steps, in nanoseconds. -/
def syncClock : Float := 4.0

/-- The encoding of a step, and how far it is shifted up in the register. -/
def Target.register : Target → String × UInt64
  | .frequency => ("AD9910_FRQ", 0)
  | .phase => ("AD9910_PHASE", 16)
  | .amplitude => ("AD9910_AMPLITUDE", 18)

/-- The step register.  A plain whole number is the register itself. -/
def stepWord (step : Quantity) (target : Target) : Except EncodingError UInt32 := do
  if step.isPlain && Number.isWhole step.magnitude then
    let n := Number.toInt64 step.magnitude
    if 0 ≤ n ∧ n < pow2 32 then return UInt32.ofInt n
    else throw (.outOfRange "AD9910_RAMP_STEP" step.text 0.0 4294967296.0)
  else
    let (name, shift) := target.register
    let word ← encode step (some name)
    return (word <<< shift).toUInt32

/-- The rate register: the interval between steps in clock cycles, at least one. -/
def rateWord (interval : Quantity) : Except EncodingError UInt16 := do
  let nanoseconds ← (do interval.magnitudeIn (← PhysicalUnit.parse "ns")).mapError .unit
  let cycles := Number.round .halfToEven (nanoseconds / syncClock)
  if 1.0 ≤ cycles && cycles ≤ 65535.0 then
    return UInt16.ofInt (Number.roundWithin .towardZero 0 65535 cycles)
  else
    throw (.outOfRange "AD9910_RAMP_RATE" interval.text syncClock (syncClock * 65536.0))

end PulseSequencer.Ramp
