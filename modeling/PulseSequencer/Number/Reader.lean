import PulseSequencer.Number.Binary

/-
# PulseSequencer.Number.Reader -- reading numbers

`readFloat?` accepts a sign, digits with an optional point (at least one digit on
either side), and an optional exponent; or a spelling of infinity or NaN in any
case.  `readInt?` accepts a sign and digits.  Nothing else may stand in the text.
-/

namespace PulseSequencer.Number

set_option autoImplicit false

/-- The value of a list of decimal digits. -/
def ofDigits (ds : List Char) : Nat :=
  ds.foldl (fun n c => 10 * n + (c.toNat - '0'.toNat)) 0

/-- Splits off a leading sign; `true` means minus. -/
def splitSign : List Char → Bool × List Char
  | '-' :: rest => (true, rest)
  | '+' :: rest => (false, rest)
  | cs => (false, cs)

/-- A nonempty list of digits and nothing else. -/
def readNat? (cs : List Char) : Option Nat :=
  if cs ≠ [] ∧ cs.all Char.isDigit then some (ofDigits cs) else none

/-- An optional sign and digits. -/
def readInt? (cs : List Char) : Option Int :=
  match splitSign cs with
  | (true, rest) => (readNat? rest).map fun n => -Int.ofNat n
  | (false, rest) => (readNat? rest).map Int.ofNat

/-- `readInt?`, refused outside the signed 64-bit range. -/
def readInt64? (cs : List Char) : Option Int :=
  match readInt? cs with
  | some n => if -pow2 63 ≤ n ∧ n < pow2 63 then some n else none
  | none => none

/-- An unsigned number below `2^bits`; a plus sign may precede it. -/
def readWord? (bits : Nat) (cs : List Char) : Option Nat :=
  let digits := match cs with
    | '+' :: rest => rest
    | _ => cs
  match readNat? digits with
  | some n => if n < pow2 bits then some n else none
  | none => none

def digitsThenRest (cs : List Char) : List Char × List Char :=
  (cs.takeWhile Char.isDigit, cs.dropWhile Char.isDigit)

/-- Powers of ten beyond this make every number with fewer digits than half of
it zero or infinite. -/
def exponentBound : Int := 1000000

/-- `digits · 10^exponent`, correctly rounded. -/
def toFloat (digits : Nat) (exponent : Int) : Float :=
  if digits = 0 then 0.0
  else
    let length := Int.ofNat (Nat.toDigits 10 digits).length
    if exponent + length > 400 then 1.0 / 0.0
    else if exponent + length < -400 then 0.0
    else match exponent with
      | .ofNat k => Float.ofScientific digits false k
      | .negSucc k => Float.ofScientific digits true (k + 1)

def readExponent? : List Char → Option Int
  | [] => some 0
  | c :: rest =>
      if c = 'e' ∨ c = 'E' then
        (readInt? rest).map fun n => max (-exponentBound) (min exponentBound n)
      else none

def readMagnitude? (cs : List Char) : Option Float :=
  let (whole, afterWhole) := digitsThenRest cs
  let (fraction, rest) := match afterWhole with
    | '.' :: tail => digitsThenRest tail
    | other => ([], other)
  if whole = [] ∧ fraction = [] then none
  else
    (readExponent? rest).map fun exponent =>
      toFloat (ofDigits (whole ++ fraction)) (exponent - Int.ofNat fraction.length)

/-- Reads a double; see the head of the module for the grammar. -/
def readFloat? (text : List Char) : Option Float :=
  let (negative, rest) := splitSign text
  let signed (x : Float) : Float := if negative then -x else x
  match String.ofList (rest.map Char.toLower) with
  | "inf" | "infinity" => some (signed (1.0 / 0.0))
  | "nan" => some (signed (0.0 / 0.0))
  | _ => (readMagnitude? rest).map signed

end PulseSequencer.Number
