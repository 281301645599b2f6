/-
# PulseSequencer.Number.Radix -- whole numbers to any base

Words are written to base sixteen.  Reading goes from the left and stops at the first
fault: a character that is no digit, or a number that has grown too large.
-/

namespace PulseSequencer

set_option autoImplicit false

/-- The digits of a number, filled up with zeros to a width. -/
def hexDigits (width n : Nat) : List Char :=
  let ds := Nat.toDigits 16 n
  List.replicate (width - ds.length) '0' ++ ds

def hexText (n : Nat) (width : Nat := 1) : String := "0x" ++ String.ofList (hexDigits width n)

end PulseSequencer

namespace PulseSequencer.Number

/-- Why a text is no number to some base. -/
inductive DigitsFault where
  | empty
  | noDigit
  | tooLarge
deriving Repr, DecidableEq

def DigitsFault.message : DigitsFault → String
  | .empty => "cannot parse integer from empty string"
  | .noDigit => "invalid digit found in string"
  | .tooLarge => "number too large to fit in target type"

/-- The value of a character as a digit to a base of at most 36. -/
def digitValue? (base : Nat) (c : Char) : Option Nat :=
  let value :=
    if '0' ≤ c ∧ c ≤ '9' then some (c.toNat - '0'.toNat)
    else if 'a' ≤ c ∧ c ≤ 'z' then some (c.toNat - 'a'.toNat + 10)
    else if 'A' ≤ c ∧ c ≤ 'Z' then some (c.toNat - 'A'.toNat + 10)
    else none
  value.filter (· < base)

/-- Reads on behind digits of the value `n`. -/
def readDigits (base bound n : Nat) : List Char → Except DigitsFault Nat
  | [] => .ok n
  | c :: rest =>
      match digitValue? base c with
      | none => .error .noDigit
      | some digit =>
          if base * n + digit < bound then readDigits base bound (base * n + digit) rest
          else .error .tooLarge

/-- Reads a number below `bound`; a plus sign may precede the digits. -/
def readBase (base bound : Nat) : List Char → Except DigitsFault Nat
  | [] => .error .empty
  | ['+'] => .error .noDigit
  | '+' :: digits => readDigits base bound 0 digits
  | digits => readDigits base bound 0 digits

end PulseSequencer.Number
