import PulseSequencer.Number.Binary

/-
# PulseSequencer.Number.Arithmetic -- rounding, powers, remainders and orders of doubles

Each rounding reads the double as `±m · 2^e` and works on `m` and `e`, so it is
exact.  Values that are already whole, infinite or NaN stay as they are, and a
result of zero keeps the sign of its argument.  An integer power is taken by repeated
squaring, so its last bit is fixed by the order of the products; a remainder is exact.
-/

namespace PulseSequencer.Number

set_option autoImplicit false

/-! ## Rounding -/

/-- The ways of taking `m · 2^e` to an integer. -/
inductive Rounding where
  | towardZero
  | down
  | up
  | halfToEven
  | halfAway
deriving Repr, DecidableEq

/-- The magnitude of the rounded value. -/
def Rounding.apply (mode : Rounding) (negative : Bool) (mantissa : Nat) (exponent : Int) : Nat :=
  let whole := Binary.wholePart mantissa exponent
  let inexact := !Binary.isWhole mantissa exponent
  let half := Binary.compareHalf mantissa exponent
  let away : Bool := match mode with
    | .towardZero => false
    | .down => negative && inexact
    | .up => !negative && inexact
    | .halfToEven => half == .gt || (half == .eq && whole % 2 == 1)
    | .halfAway => half != .lt
  if away then whole + 1 else whole

/-- Rounds a double to a whole double. -/
def round (mode : Rounding) (x : Float) : Float :=
  match Binary.ofFloat x with
  | .finite negative mantissa exponent =>
      if Binary.isWhole mantissa exponent then x
      else
        let magnitude := Float.ofNat (mode.apply negative mantissa exponent)
        if negative then -magnitude else magnitude
  | _ => x

/-- The integer nearest in the given mode, held inside `lo … hi`; NaN counts as
zero and an infinity as the end it lies beyond. -/
def roundWithin (mode : Rounding) (lo hi : Int) (x : Float) : Int :=
  match Binary.ofFloat x with
  | .finite negative mantissa exponent =>
      let magnitude := Int.ofNat (mode.apply negative mantissa exponent)
      max lo (min hi (if negative then -magnitude else magnitude))
  | .infinite negative => if negative then lo else hi
  | .nan => max lo (min hi 0)

/-- The integer part, held inside the signed 64-bit range. -/
def toInt64 (x : Float) : Int :=
  roundWithin .towardZero (-pow2 63) (pow2 63 - 1) x

/-- Whether a double is a finite integer. -/
def isWhole (x : Float) : Bool :=
  match Binary.ofFloat x with
  | .finite _ mantissa exponent => Binary.isWhole mantissa exponent
  | _ => false

/-- Rounds to `digits` significant decimal digits; both zeros become `0`. -/
def roundSignificant (digits : Nat) (x : Float) : Float :=
  if x == 0.0 then 0.0
  else if !x.isFinite then x
  else
    let order := round .down x.abs.log10
    let scale := Float.pow 10.0 (Float.ofNat digits - 1.0 - order)
    round .halfAway (x * scale) / scale

/-! ## Powers, remainders and orders -/

/-- Multiplies `acc` by the squares of `base` that the bits of `n` select, least
bit first. -/
def powFrom (acc base : Float) (n : Nat) : Float :=
  let acc := if n % 2 = 1 then acc * base else acc
  if n / 2 = 0 then acc else powFrom acc (base * base) (n / 2)
termination_by n
decreasing_by omega

/-- `base^n`; a negative power is the reciprocal of the positive one. -/
def powInt (base : Float) (n : Int) : Float :=
  let magnitude := powFrom 1.0 base n.natAbs
  if n < 0 then 1.0 / magnitude else magnitude

/-- The remainder of the division that truncates; it has the sign of `x`. -/
def remainder (x y : Float) : Float :=
  match Binary.ofFloat x, Binary.ofFloat y with
  | .nan, _ | _, .nan | .infinite _, _ | _, .finite _ 0 _ => 0.0 / 0.0
  | _, .infinite _ => x
  | .finite negative mx ex, .finite _ my ey =>
      let e := min ex ey
      let r := (mx * pow2 (ex - e).toNat) % (my * pow2 (ey - e).toNat)
      let magnitude := Float.scaleB (Float.ofNat r) e
      if negative then -magnitude else magnitude

/-- The order of the real numbers; `none` if either side is NaN. -/
def compare? (x y : Float) : Option Ordering :=
  if x < y then some .lt
  else if x == y then some .eq
  else if y < x then some .gt
  else none

/-- A key whose integer order is a total order on all doubles: negative NaN,
-∞ … -0, 0 … ∞, NaN. -/
def totalKey (x : Float) : Int :=
  let bits := x.toBits.toNat
  if bits < pow2 63 then Int.ofNat bits else -Int.ofNat (bits - pow2 63) - 1

def pi : Float := 3.14159265358979323846

end PulseSequencer.Number
