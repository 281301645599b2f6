/-
# PulseSequencer.Number.Binary -- a double as an exact number

Words have powers of two as their sizes, and decimal places powers of ten.  A finite
double is `±m · 2^e` with `m < 2^53`.  `Binary.ofFloat` reads the three parts off the
bits, so that rounding, printing and conversion to integers are plain arithmetic on
`Nat` and `Int`.
-/

namespace PulseSequencer

set_option autoImplicit false

def pow2 (n : Nat) : Nat := Nat.pow 2 n

def pow10 (n : Nat) : Nat := Nat.pow 10 n

theorem pow2_succ (n : Nat) : pow2 (n + 1) = 2 * pow2 n := Nat.mul_comm (Nat.pow 2 n) 2

theorem pow2_pos (n : Nat) : 0 < pow2 n := Nat.pow_pos (by decide)

/-! ## Doubles -/

/-- What a double denotes. -/
inductive Binary where
  | finite (negative : Bool) (mantissa : Nat) (exponent : Int)
  | infinite (negative : Bool)
  | nan
deriving Repr, DecidableEq

namespace Binary

/-- Reads the sign, the eleven exponent bits and the fraction.  Subnormals share
the exponent of the least normal numbers and lack the hidden bit. -/
def ofBits (bits : UInt64) : Binary :=
  let negative := bits >>> 63 == 1
  let biased := ((bits >>> 52) &&& 0x7FF).toNat
  let fraction := (bits &&& 0xFFFFFFFFFFFFF).toNat
  if biased = 0x7FF then
    if fraction = 0 then .infinite negative else .nan
  else if biased = 0 then .finite negative fraction (-1074)
  else .finite negative (pow2 52 + fraction) (Int.ofNat biased - 1075)

def ofFloat (x : Float) : Binary := ofBits x.toBits

/-- The integer part of `m · 2^e`. -/
def wholePart (mantissa : Nat) (exponent : Int) : Nat :=
  match exponent with
  | .ofNat k => mantissa * pow2 k
  | .negSucc k => mantissa / pow2 (k + 1)

/-- Twice the fractional part of `m · 2^e` against one: the sign tells on which
side of a half it lies. -/
def compareHalf (mantissa : Nat) (exponent : Int) : Ordering :=
  match exponent with
  | .ofNat _ => .lt
  | .negSucc k => compare (2 * (mantissa % pow2 (k + 1))) (pow2 (k + 1))

/-- Whether `m · 2^e` is an integer. -/
def isWhole (mantissa : Nat) (exponent : Int) : Bool :=
  match exponent with
  | .ofNat _ => true
  | .negSucc k => mantissa % pow2 (k + 1) == 0

end Binary

end PulseSequencer
