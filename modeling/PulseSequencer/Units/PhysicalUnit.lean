import PulseSequencer.Number.Arithmetic
import PulseSequencer.Number.Binary
import PulseSequencer.Number.Reader
import PulseSequencer.Text.Blank
import PulseSequencer.Units.Dimension

/-
# PulseSequencer.Units.PhysicalUnit -- units and how they are written

A unit is a symbol, its scale to the base units, and its dimension.  Symbols are
products, quotients and integer powers of prefixed unit names, as in `V/s`,
`m^2` or `1/MHz`.
-/

namespace PulseSequencer

set_option autoImplicit false

/-- Why a calculation with units has no answer. -/
inductive UnitError where
  | incompatible (source : String) (sourceDimension : Dimension)
      (target : String) (targetDimension : Dimension)
  | notDimensionless (operation unit : String)
  | unknownUnit (text : String)
  | exponentOverflow (exponent : Int)
deriving Repr, DecidableEq

def UnitError.message : UnitError → String
  | .incompatible source sourceDimension target targetDimension =>
      "Cannot convert from '" ++ source ++ "' (" ++ sourceDimension.text ++ ") to '" ++ target ++
        "' (" ++ targetDimension.text ++ ")"
  | .notDimensionless operation unit =>
      "Operation '" ++ operation ++ "' requires a dimensionless operand, got '" ++ unit ++ "'"
  | .unknownUnit text => "Unknown unit '" ++ text ++ "'"
  | .exponentOverflow exponent =>
      "Exponent " ++ toString exponent ++ " is out of range for a unit"

structure PhysicalUnit where
  symbol : String
  scale : Float
  dimension : Dimension

namespace PhysicalUnit

def dimensionless : PhysicalUnit := ⟨"", 1.0, .none⟩

instance : Inhabited PhysicalUnit := ⟨dimensionless⟩

/-! ## Named units and prefixes -/

/-- A unit with a name of its own; only some take a prefix. -/
structure Named where
  name : List Char
  scale : Float
  dimension : Dimension
  takesPrefix : Bool

def named : List Named :=
  [ ⟨['m', 'o', 'l'], 1.0, { amount := 1 }, true⟩,
    ⟨['m', 'i', 'n'], 60.0, { time := 1 }, false⟩,
    ⟨['O', 'h', 'm'], 1.0, { current := -1, voltage := 1 }, true⟩,
    ⟨['d', 'e', 'g'], Number.pi / 180.0, .none, false⟩,
    ⟨['r', 'a', 'd'], 1.0, .none, false⟩,
    ⟨['H', 'z'], 1.0, { time := -1 }, true⟩,
    ⟨['h', 'r'], 3600.0, { time := 1 }, false⟩,
    ⟨['c', 'd'], 1.0, { luminosity := 1 }, true⟩,
    ⟨['s'], 1.0, { time := 1 }, true⟩,
    ⟨['h'], 3600.0, { time := 1 }, false⟩,
    ⟨['m'], 1.0, { length := 1 }, true⟩,
    ⟨['g'], 1e-3, { mass := 1 }, true⟩,
    ⟨['A'], 1.0, { current := 1 }, true⟩,
    ⟨['V'], 1.0, { voltage := 1 }, true⟩,
    ⟨['W'], 1.0, { current := 1, voltage := 1 }, true⟩,
    ⟨['K'], 1.0, { temperature := 1 }, true⟩ ]

def prefixes : List (List Char × Float) :=
  [ (['d', 'a'], 1e1), (['Y'], 1e24), (['Z'], 1e21), (['E'], 1e18), (['P'], 1e15),
    (['T'], 1e12), (['G'], 1e9), (['M'], 1e6), (['k'], 1e3), (['h'], 1e2), (['d'], 1e-1),
    (['c'], 1e-2), (['m'], 1e-3), (['u'], 1e-6), (['µ'], 1e-6), (['n'], 1e-9),
    (['p'], 1e-12), (['f'], 1e-15), (['a'], 1e-18) ]

/-- A prefix in front of the name of a unit that takes one. -/
def prefixed? (symbol head : List Char) (factor : Float) : Option PhysicalUnit :=
  match Text.after? head symbol with
  | none => none
  | some rest =>
      (named.find? fun u => u.name == rest && u.takesPrefix).map fun u =>
        ⟨String.ofList symbol, factor * u.scale, u.dimension⟩

/-- A unit name, or else a prefixed one. -/
def simple? (symbol : List Char) : Option PhysicalUnit :=
  match named.find? fun u => u.name == symbol with
  | some u => some ⟨String.ofList symbol, u.scale, u.dimension⟩
  | none => prefixes.findSome? fun (head, factor) => prefixed? symbol head factor

/-! ## Arithmetic -/

def joinSymbols (a operator b : String) : String :=
  if a = "" then b else if b = "" then a else a ++ operator ++ b

def checked (r : Except Int Dimension) : Except UnitError Dimension :=
  r.mapError .exponentOverflow

def mul (a b : PhysicalUnit) : Except UnitError PhysicalUnit := do
  let dimension ← checked (a.dimension.mul b.dimension)
  return ⟨joinSymbols a.symbol "*" b.symbol, a.scale * b.scale, dimension⟩

def div (a b : PhysicalUnit) : Except UnitError PhysicalUnit := do
  let dimension ← checked (a.dimension.div b.dimension)
  let symbol :=
    if a.symbol = "" ∧ b.symbol ≠ "" then "1/" ++ b.symbol
    else joinSymbols a.symbol "/" b.symbol
  return ⟨symbol, a.scale / b.scale, dimension⟩

/-- The scale is raised to the low 32 bits of `n`, the dimension to `n`. -/
def pow (a : PhysicalUnit) (n : Int) : Except UnitError PhysicalUnit := do
  let dimension ← checked (a.dimension.pow n)
  let symbol := if a.symbol = "" ∨ n = 1 then a.symbol else a.symbol ++ "^" ++ toString n
  return ⟨symbol, Number.powInt a.scale (n.bmod (pow2 32)), dimension⟩

/-- The factor that takes a magnitude in `a` to one in `b`. -/
def conversionFactor (a b : PhysicalUnit) : Except UnitError Float :=
  if a.dimension = b.dimension then .ok (a.scale / b.scale)
  else .error (.incompatible a.symbol a.dimension b.symbol b.dimension)

/-- Same dimension, and scales that agree in twelve digits. -/
def same (a b : PhysicalUnit) : Bool :=
  a.dimension == b.dimension &&
    Number.roundSignificant 12 a.scale == Number.roundSignificant 12 b.scale

def isDimensionless (a : PhysicalUnit) : Bool := a.dimension.isNone

/-! ## Reading -/

/-- Two asterisks are another way to write a power. -/
def caretPowers : List Char → List Char
  | '*' :: '*' :: rest => '^' :: caretPowers rest
  | c :: rest => c :: caretPowers rest
  | [] => []

/-- The factors of a symbol, each with whether it divides. -/
def factors (divides : Bool) (term : List Char) : List Char → List (Bool × List Char)
  | [] => [(divides, term)]
  | c :: rest =>
      if c = '*' ∨ c = '/' then (divides, term) :: factors (c = '/') [] rest
      else factors divides (term ++ [c]) rest

/-- A simple unit with an optional integer power. -/
def power? (term : List Char) : Option (List Char × Int) :=
  match Text.splitFirst? (· = '^') term with
  | none => some (term, 1)
  | some (base, exponent) => (Number.readInt64? exponent).map fun n => (base, n)

/-- Multiplies or divides by one factor.  A plain `1` may stand in front of a
quotient. -/
def applyFactor (whole : String) (u : PhysicalUnit) (divides : Bool) (term : List Char) :
    Except UnitError PhysicalUnit := do
  if term = ['1'] ∧ divides = false then return u
  match power? term with
  | none => throw (.unknownUnit whole)
  | some (base, exponent) =>
      match simple? base with
      | none => throw (.unknownUnit whole)
      | some unit =>
          let factor ← unit.pow exponent
          if divides then u.div factor else u.mul factor

/-- Reads a unit; blanks are free, and the empty text is no unit at all. -/
def parse (text : String) : Except UnitError PhysicalUnit := do
  let trimmed := Text.trim text.toList
  if trimmed = [] then return dimensionless
  match simple? trimmed with
  | some unit => return unit
  | none =>
      let whole := String.ofList trimmed
      let terms := factors false [] (Text.withoutBlanks (caretPowers trimmed))
      let unit ← terms.foldlM (fun u (divides, term) => applyFactor whole u divides term)
        dimensionless
      return { unit with symbol := whole }

end PhysicalUnit

end PulseSequencer
