import PulseSequencer.Scan.Error
import PulseSequencer.Units.Quantity

/-
# PulseSequencer.Scan.Basic -- which values a parameter takes, and in which order

The points of a scan lie evenly between two ends.  They are visited upwards,
downwards, from the middle outwards, there and back, or shuffled.  All of this is
stated over any type of numbers whose distances can be compared: `Float` is what a
scan runs on, `Rat` its exact reading.  How points are shuffled is left to whoever
has random numbers.
-/

namespace PulseSequencer

set_option autoImplicit false

/-- Numbers whose distances can be compared. -/
class Spaced (α : Type) extends Add α, Sub α, Mul α, Div α where
  ofNat : Nat → α
  abs : α → α
  less : α → α → Bool
  /-- The first number with the sign of the second. -/
  withSign : α → α → α
  /-- Whether the number can be the distance of two points. -/
  isStep : α → Bool
  /-- One more than the whole part of the quotient; the quotient is taken to be a
  little larger, so that rounding errors lose no point. -/
  countUpTo : α → Nat

instance : Spaced Float where
  ofNat := Float.ofNat
  abs := Float.abs
  less a b := a < b
  withSign x s := if s.toBits >>> 63 = 1 then -x.abs else x.abs
  isStep x := x != 0.0 && x.isFinite
  countUpTo x := ((x + 1e-9).floor.toUInt64 + 1).toNat

instance : Spaced Rat where
  ofNat n := n
  abs x := if x < 0 then -x else x
  less a b := a < b
  withSign x s := if (s < 0) = (x < 0) then x else -x
  isStep x := x != 0
  countUpTo x := (x + 1 / 1000000000).floor.toNat + 1

/-- How many points there are, or how far apart they are. -/
inductive Spacing (α : Type) where
  | count (n : Nat)
  | size (step : α)

namespace Spacing

variable {α : Type} [Spaced α]

/-- The number of points between two ends. -/
def pointCount (s : Spacing α) (start stop : α) : Except (Spacing α) Nat :=
  match s with
  | .count n => .ok n
  | .size step =>
      let step := Spaced.abs step
      if Spaced.isStep step then .ok (Spaced.countUpTo (Spaced.abs (stop - start) / step))
      else .error (.size step)

/-- The distance from one point to the next. -/
def increment (s : Spacing α) (start stop : α) (count : Nat) : α :=
  match s with
  | .count _ => (stop - start) / Spaced.ofNat (count - 1)
  | .size step => Spaced.withSign (Spaced.abs step) (stop - start)

/-- The points in the direction from `start` to `stop`.  With a given number of
points the last one is `stop` itself. -/
def points (s : Spacing α) (start stop : α) (count : Nat) : List α :=
  if count = 1 then [start]
  else
    let step := s.increment start stop count
    (List.range count).map fun i =>
      match s with
      | .count _ => if i + 1 = count then stop else start + Spaced.ofNat i * step
      | .size _ => start + Spaced.ofNat i * step

end Spacing

inductive ScanOrder where
  | up
  | down
  | randomized
  | centerOut
  | upDown
  | downUp
deriving Repr, DecidableEq, Inhabited

namespace ScanOrder

def all : List ScanOrder := [.up, .down, .randomized, .centerOut, .upDown, .downUp]

def name : ScanOrder → String
  | .up => "LinearUp"
  | .down => "LinearDown"
  | .randomized => "Randomized"
  | .centerOut => "CenterOut"
  | .upDown => "LinearUpDown"
  | .downUp => "LinearDownUp"

def ofName (s : String) : Except ScanError ScanOrder :=
  match all.find? fun o => o.name == s with
  | some o => .ok o
  | none => .error (.invalid (.unknownOrder s))

end ScanOrder

/-- The two indices at a distance from the middle, as far as they exist. -/
def atDistance (length distance : Nat) : List Nat :=
  let middle := length / 2
  (if middle + distance < length then [middle + distance] else []) ++
    (if distance ≤ middle then [middle - distance] else [])

/-- All indices below `length`, from the middle outwards; upper neighbours come
before lower ones. -/
def outward (length : Nat) : List Nat :=
  if length = 0 then []
  else length / 2 :: (List.range (length / 2 + 1)).flatMap fun d => atDistance length (d + 1)

/-- The points and then the points in reverse.  The turning point is visited once,
provided that the first two points differ. -/
def thereAndBack {α : Type} [Spaced α] : List α → List α
  | first :: second :: rest =>
      let points := first :: second :: rest
      let step := Spaced.abs (second - first)
      match points.reverse with
      | turn :: back =>
          points ++ if Spaced.less (Spaced.abs (turn - turn)) step then back else turn :: back
      | [] => points
  | points => points

/-! ## Orders of visits -/

/-- A way to shuffle: under a seed, or under fresh entropy if there is none, the indices of so
many points in the order of their visits.  The order depends on nothing else, and how random
numbers are drawn is no part of a scan. -/
abbrev Shuffle := Option UInt64 → Nat → List Nat

namespace Shuffle

/-- Every index comes up once, with a seed or without. -/
def Permutes (shuffle : Shuffle) : Prop :=
  ∀ seed count, (shuffle seed count).Perm (List.range count)

/-- Leaves the points where they are, for want of random numbers. -/
def still : Shuffle := fun _ count => List.range count

theorem permutes_still : still.Permutes := fun _ _ => .refl _

end Shuffle

/-- The points in the order of visits. -/
def ScanOrder.arrange {α : Type} [Spaced α] (order : ScanOrder) (shuffle : Shuffle)
    (seed : Option UInt64) (points : List α) : List α :=
  match order with
  | .up => points
  | .down => points.reverse
  | .randomized => (shuffle seed points.length).filterMap fun i => points[i]?
  | .centerOut => (outward points.length).filterMap fun i => points[i]?
  | .upDown => thereAndBack points
  | .downUp => thereAndBack points.reverse

/-! ## Scans -/

structure Scan where
  parameter : String
  start : Quantity
  stop : Quantity
  spacing : Spacing Quantity
  order : ScanOrder := .up
  /-- Decides the order of a randomized scan; without one it is different every time. -/
  seed : Option UInt64 := none
  /-- Maps the scanned value `x` to the value that is plotted. -/
  plotted : Option String := none

namespace Scan

def inUnit (unit : PhysicalUnit) (q : Quantity) : Except ScanError Float :=
  (q.magnitudeIn unit).mapError .unit

/-- The distances of a scan in the unit of its start. -/
def spacingIn (unit : PhysicalUnit) : Spacing Quantity → Except ScanError (Spacing Float)
  | .count n => .ok (.count n)
  | .size step => do return .size (← inUnit unit step)

/-- The magnitudes of the points, in the unit of the start. -/
def magnitudes (s : Scan) : Except ScanError (List Float) := do
  let start := s.start.magnitude
  let stop ← inUnit s.start.unit s.stop
  let spacing ← spacingIn s.start.unit s.spacing
  match spacing.pointCount start stop with
  | .error (.size step) => throw (.invalid (.stepSize step))
  | .error (.count _) | .ok 0 => throw (.invalid .noPoints)
  | .ok count => return spacing.points start stop count

def quantities (s : Scan) (magnitudes : List Float) : List Quantity :=
  magnitudes.map fun m => ⟨m, s.start.unit⟩

/-- The points in the direction from start to stop. -/
def progression (s : Scan) : Except ScanError (List Quantity) := do
  return s.quantities (← s.magnitudes)

/-- The points in the order of visits. -/
def values (s : Scan) (shuffle : Shuffle := .still) : Except ScanError (List Quantity) := do
  return s.quantities (s.order.arrange shuffle s.seed (← s.magnitudes))

end Scan

end PulseSequencer
