import PulseSequencer.Number.Binary

/-
# PulseSequencer.Number.Notation -- how doubles are written

Every real number in an interval around a double rounds to it.  The shortest
decimal is the first grid of 1, 2, … 17 significant digits that has a point in
that interval; of two such points the nearer one is taken, and of two equally
near ones the larger.  Lengths are exact, in quarters of the double's last place.

Messages and listings write a double with its shortest digits, always
positionally (`plain`).  Tokens are quoted in messages in a second form that
always shows a point or an exponent (`quoted`), so that `1.0` and `1` differ.
-/

namespace PulseSequencer.Number

set_option autoImplicit false

/-! ## The fewest digits that read back -/

/-- The positive number `digits · 10^exponent`, with no trailing zero digit. -/
structure Decimal where
  digits : Nat
  exponent : Int
deriving Repr, DecidableEq

/-- The reals that round to a double, as `low/den … high/den` around
`value/den`; the ends belong to it when `closed`. -/
structure Interval where
  low : Nat
  value : Nat
  high : Nat
  den : Nat
  closed : Bool
deriving Repr

namespace Interval

/-- The interval of `mantissa · 2^exponent`.  Below a power of two the
neighbour is half as far away. -/
def around (mantissa : Nat) (exponent : Int) : Interval :=
  let narrow := mantissa = pow2 52 ∧ exponent ≠ -1074
  let low := if narrow then 4 * mantissa - 1 else 4 * mantissa - 2
  let quarter := exponent - 2
  let scale := pow2 quarter.toNat
  { low := low * scale
    value := 4 * mantissa * scale
    high := (4 * mantissa + 2) * scale
    den := pow2 (-quarter).toNat
    closed := mantissa % 2 = 0 }

/-- Whether `num / step` lies in the interval. -/
def covers (i : Interval) (num step : Nat) : Bool :=
  let point := num * i.den
  if i.closed then i.low * step ≤ point && point ≤ i.high * step
  else i.low * step < point && point < i.high * step

/-- The `p` with `10^(p-1) ≤ value < 10^p`. -/
def magnitude (i : Interval) : Int :=
  if i.den ≤ i.value then
    Int.ofNat (Nat.toDigits 10 (i.value / i.den)).length
  else
    let guess := (Nat.toDigits 10 (i.den / i.value)).length
    if i.den ≤ i.value * pow10 (guess - 1) then 2 - Int.ofNat guess
    else 1 - Int.ofNat guess

/-- The better of the value's two neighbours on the grid of `10^exponent` that
lies in the interval. -/
def onGrid? (i : Interval) (exponent : Int) : Option Nat :=
  let up := pow10 exponent.toNat
  let down := pow10 (-exponent).toNat
  let below := i.value * down / (i.den * up)
  let above := below + 1
  let hitBelow := i.covers (below * up) down && below != 0
  let hitAbove := i.covers (above * up) down
  if hitBelow && hitAbove then
    let belowGap := i.value * down - below * up * i.den
    let aboveGap := above * up * i.den - i.value * down
    if belowGap < aboveGap then some below else some above
  else if hitBelow then some below
  else if hitAbove then some above
  else none

/-- The first grid with a point in the interval, starting at `count` digits. -/
def search (i : Interval) (magnitude : Int) (count : Nat) : Nat → Decimal
  | 0 => ⟨i.value / i.den, 0⟩
  | fuel + 1 =>
      let exponent := magnitude - Int.ofNat count
      match i.onGrid? exponent with
      | some digits => ⟨digits, exponent⟩
      | none => i.search magnitude (count + 1) fuel

end Interval

/-- Moves trailing zero digits into the exponent. -/
def Decimal.stripZeros (d : Decimal) : Nat → Decimal
  | 0 => d
  | fuel + 1 =>
      if d.digits ≠ 0 ∧ d.digits % 10 = 0 then
        Decimal.stripZeros ⟨d.digits / 10, d.exponent + 1⟩ fuel
      else d

/-- The shortest decimal that reads back as the positive double
`mantissa · 2^exponent`. -/
def shortest (mantissa : Nat) (exponent : Int) : Decimal :=
  let i := Interval.around mantissa exponent
  (i.search i.magnitude 1 17).stripZeros 18

/-! ## Notations -/

def zeros (n : Nat) : List Char := List.replicate n '0'

/-- `digits · 10^exponent` without an exponent mark. -/
def Decimal.positional (d : Decimal) : List Char :=
  let ds := Nat.toDigits 10 d.digits
  match d.exponent with
  | .ofNat k => ds ++ zeros k
  | .negSucc k =>
      let places := k + 1
      if places < ds.length then
        ds.take (ds.length - places) ++ '.' :: ds.drop (ds.length - places)
      else
        '0' :: '.' :: (zeros (places - ds.length) ++ ds)

/-- One digit before the point, the others behind it, and the power of ten. -/
def Decimal.scientific (d : Decimal) : List Char :=
  let ds := Nat.toDigits 10 d.digits
  let power := d.exponent + Int.ofNat ds.length - 1
  let fraction := match ds.drop 1 with
    | [] => []
    | rest => '.' :: rest
  ds.take 1 ++ fraction ++ 'e' :: (toString power).toList

def signed (negative : Bool) (text : List Char) : String :=
  String.ofList (if negative then '-' :: text else text)

def infinityText : List Char := ['i', 'n', 'f']

/-- Shortest digits, never an exponent; zero keeps its sign. -/
def plain (x : Float) : String :=
  match Binary.ofFloat x with
  | .nan => "NaN"
  | .infinite negative => signed negative infinityText
  | .finite negative 0 _ => signed negative ['0']
  | .finite negative mantissa exponent =>
      signed negative (shortest mantissa exponent).positional

/-- Shortest digits with at least one decimal place; an exponent from `1e16` on
and below `1e-4`. -/
def quoted (x : Float) : String :=
  match Binary.ofFloat x with
  | .nan => "NaN"
  | .infinite negative => signed negative infinityText
  | .finite negative 0 _ => signed negative ['0', '.', '0']
  | .finite negative mantissa exponent =>
      let d := shortest mantissa exponent
      let size := d.exponent + Int.ofNat (Nat.toDigits 10 d.digits).length
      if size > 16 ∨ size < -3 then signed negative d.scientific
      else if d.exponent ≥ 0 then signed negative (d.positional ++ ['.', '0'])
      else signed negative d.positional

end PulseSequencer.Number
