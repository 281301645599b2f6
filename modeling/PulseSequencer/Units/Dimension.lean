import PulseSequencer.Number.Binary
import PulseSequencer.Number.Notation

/-
# PulseSequencer.Units.Dimension -- exponents of the base dimensions

A dimension is one small exponent for each of eight base dimensions.  Voltage is
a base dimension of its own.  Products, quotients and powers act on the
exponents one by one and fail at the first that leaves -128 … 127.
-/

namespace PulseSequencer

set_option autoImplicit false

inductive BaseDimension where
  | time
  | length
  | mass
  | current
  | temperature
  | amount
  | luminosity
  | voltage
deriving Repr, DecidableEq

namespace BaseDimension

def all : List BaseDimension :=
  [.time, .length, .mass, .current, .temperature, .amount, .luminosity, .voltage]

def name : BaseDimension → String
  | .time => "time"
  | .length => "length"
  | .mass => "mass"
  | .current => "current"
  | .temperature => "temperature"
  | .amount => "substance"
  | .luminosity => "luminosity"
  | .voltage => "voltage"

theorem mem_all (b : BaseDimension) : b ∈ all := by cases b <;> simp [all]

end BaseDimension

/-- The exponent of each base dimension. -/
structure Dimension where
  time : Int8 := 0
  length : Int8 := 0
  mass : Int8 := 0
  current : Int8 := 0
  temperature : Int8 := 0
  amount : Int8 := 0
  luminosity : Int8 := 0
  voltage : Int8 := 0
deriving Repr, DecidableEq, Inhabited

namespace Dimension

def exponent (d : Dimension) : BaseDimension → Int8
  | .time => d.time
  | .length => d.length
  | .mass => d.mass
  | .current => d.current
  | .temperature => d.temperature
  | .amount => d.amount
  | .luminosity => d.luminosity
  | .voltage => d.voltage

def ofFn (f : BaseDimension → Int8) : Dimension :=
  { time := f .time, length := f .length, mass := f .mass, current := f .current
    temperature := f .temperature, amount := f .amount, luminosity := f .luminosity
    voltage := f .voltage }

@[simp] theorem exponent_ofFn (f : BaseDimension → Int8) (b : BaseDimension) :
    (ofFn f).exponent b = f b := by cases b <;> rfl

@[ext] theorem ext_exponent {a b : Dimension} (h : ∀ i, a.exponent i = b.exponent i) : a = b := by
  cases a; cases b
  have := h .time; have := h .length; have := h .mass; have := h .current
  have := h .temperature; have := h .amount; have := h .luminosity; have := h .voltage
  simp_all [exponent]

def none : Dimension := {}

def isNone (d : Dimension) : Bool := d == none

/-- Whether a number can be an exponent. -/
def fits (n : Int) : Bool := -128 ≤ n && n ≤ 127

/-- The dimension with the given exponents; the first that does not fit is the
error. -/
def ofExponents (f : BaseDimension → Int) : Except Int Dimension :=
  match BaseDimension.all.find? fun b => !fits (f b) with
  | some b => .error (f b)
  | Option.none => .ok (ofFn fun b => Int8.ofInt (f b))

def mul (a b : Dimension) : Except Int Dimension :=
  ofExponents fun i => (a.exponent i).toInt + (b.exponent i).toInt

def div (a b : Dimension) : Except Int Dimension :=
  ofExponents fun i => (a.exponent i).toInt - (b.exponent i).toInt

/-- Exponents are multiplied as signed 64-bit numbers. -/
def pow (a : Dimension) (n : Int) : Except Int Dimension :=
  ofExponents fun i => ((a.exponent i).toInt * n).bmod (pow2 64)

def factor (b : BaseDimension) (e : Int) : String :=
  if e = 1 then "[" ++ b.name ++ "]" else "[" ++ b.name ++ "]^" ++ toString e

/-- The base dimensions that occur, in their fixed order. -/
def text (d : Dimension) : String :=
  let present := BaseDimension.all.filter fun b => d.exponent b != 0
  match present with
  | [] => "dimensionless"
  | bs => " * ".intercalate (bs.map fun b => factor b (d.exponent b).toInt)

end Dimension

end PulseSequencer
