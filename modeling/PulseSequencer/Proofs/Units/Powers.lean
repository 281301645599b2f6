import PulseSequencer.Proofs.Except
import PulseSequencer.Proofs.Units.Factors
import PulseSequencer.Units.Quantity

/-
# PulseSequencer.Proofs.Units.Powers -- when exponents are those of the exact result

Exponents are combined as integers and checked once the result is there, so that products and
quotients are exact: they have the dimension of the sums or differences if all of these fit, and
are an overflow if not (`exact_ofExponents`).  A power is combined in 64 bits.  It is exact unless
each of its products is near a multiple of `2^64`, and not all of them near zero
(`exact_pow_iff`).  Its scale and its magnitude are raised to the low 32 bits of the exponent.
No exponent of 32 bits makes a difference (`exact_pow_of_narrow`).

Main statement: `powers_exact_iff`.
-/

namespace PulseSequencer

set_option autoImplicit false

namespace Dimension

/-- Exponents that were combined without a loss: they are the wanted ones if all of those fit,
and an overflow if one does not. -/
structure Exact (made : Except Int Dimension) (wanted : BaseDimension → Int) : Prop where
  ok_of_fits : (∀ i, fits (wanted i) = true) →
    ∃ d, PhysicalUnit.checked made = .ok d ∧ ∀ i, (d.exponent i).toInt = wanted i
  overflow : (∃ i, fits (wanted i) = false) →
    ∃ m, PhysicalUnit.checked made = .error (.exponentOverflow m)

theorem ofExponents_of_fits {f : BaseDimension → Int} (inside : ∀ i, fits (f i) = true) :
    ∃ d, ofExponents f = .ok d := by
  refine ⟨ofFn fun i => Int8.ofInt (f i), ofExponents_eq_ok_iff.2 fun i => ?_⟩
  obtain ⟨low, high⟩ := fits_iff.1 (inside i)
  rw [exponent_ofFn, Int8.toInt_ofInt_of_le low (Int.lt_add_one_of_le high)]

/-- What does not fit is no exponent. -/
theorem ofExponents_of_outside {f : BaseDimension → Int} {i : BaseDimension}
    (outside : fits (f i) = false) : ∃ m, ofExponents f = .error m := by
  cases made : ofExponents f with
  | error m => exact ⟨m, rfl⟩
  | ok d =>
      rw [← ofExponents_eq_ok_iff.1 made i, fits_exponent] at outside
      cases outside

/-- **Exponents are combined without a loss** where they are checked as integers. -/
theorem exact_ofExponents (f : BaseDimension → Int) : Exact (ofExponents f) f where
  ok_of_fits inside := by
    obtain ⟨d, made⟩ := ofExponents_of_fits inside
    exact ⟨d, by rw [made]; rfl, ofExponents_eq_ok_iff.1 made⟩
  overflow outside := by
    obtain ⟨i, outside⟩ := outside
    obtain ⟨m, refused⟩ := ofExponents_of_outside outside
    exact ⟨m, by rw [refused]; rfl⟩

/-- The exponents of a power, before they are cut to 64 bits. -/
def multiples (a : Dimension) (n : Int) (i : BaseDimension) : Int := (a.exponent i).toInt * n

/-- **A power is exact unless all its products are taken for small ones** and one of them is
none. -/
theorem exact_pow_iff (a : Dimension) (n : Int) : Exact (a.pow n) (a.multiples n) ↔
    ((∀ i, fits ((a.multiples n i).bmod (pow2 64)) = true) →
      ∀ i, fits (a.multiples n i) = true) := by
  constructor
  · intro lossless taken i
    cases fit : fits (a.multiples n i) with
    | true => rfl
    | false =>
        obtain ⟨m, refused⟩ := lossless.overflow ⟨i, fit⟩
        obtain ⟨d, made⟩ := ofExponents_of_fits taken
        rw [show a.pow n = .ok d from made] at refused
        cases refused
  · intro small
    by_cases inside : ∀ i, fits (a.multiples n i) = true
    · have kept : a.pow n = ofExponents (a.multiples n) :=
        congrArg ofExponents (funext fun i => bmod_of_fits (inside i))
      rw [kept]
      exact exact_ofExponents _
    · refine ⟨fun fit => absurd fit inside, fun _ => ?_⟩
      obtain ⟨i, outside⟩ := Classical.not_forall.1 fun taken => inside (small taken)
      obtain ⟨m, refused⟩ := ofExponents_of_outside (f := fun i => (a.multiples n i).bmod (pow2 64))
        (Bool.eq_false_iff.2 outside)
      exact ⟨m, by rw [show a.pow n = .error m from refused]; rfl⟩

/-- An exponent of 32 bits has no product of more than 64. -/
theorem exact_pow_of_narrow (a : Dimension) {n : Int} (low : -pow2 31 ≤ n) (high : n < pow2 31) :
    Exact (a.pow n) (a.multiples n) := by
  refine (exact_pow_iff a n).2 fun taken i => ?_
  have kept : (a.multiples n i).bmod (pow2 64) = a.multiples n i := by
    obtain ⟨least, greatest⟩ := fits_iff.1 (a.fits_exponent i)
    rw [show pow2 31 = 2147483648 from rfl] at low high
    have size : ((a.multiples n i).natAbs : Int) ≤ 128 * 2147483648 := by
      rw [multiples, Int.natAbs_mul, Int.natCast_mul]
      exact Int.mul_le_mul (by omega) (by omega) (by omega) (by omega)
    refine Int.bmod_eq_of_le ?_ ?_ <;> rw [show pow2 64 = 18446744073709551616 from rfl] <;> omega
  rw [← kept]
  exact taken i

end Dimension

/-! ## Scales and magnitudes -/

/-- The low 32 bits of an exponent are all of it if it has no more. -/
theorem bmod_narrow_iff {n : Int} : n.bmod (pow2 32) = n ↔ -pow2 31 ≤ n ∧ n < pow2 31 := by
  rw [show pow2 32 = 4294967296 from rfl, show pow2 31 = 2147483648 from rfl]
  constructor
  · intro kept
    have low := Int.le_bmod (x := n) (m := 4294967296) (by decide)
    have high := Int.bmod_lt (x := n) (m := 4294967296) (by decide)
    omega
  · rintro ⟨low, high⟩
    exact Int.bmod_eq_of_le (by omega) (by omega)

/-- **Products and quotients of units are exact, and powers up to 32 bits.** -/
theorem powers_exact_iff (a b : Dimension) (n : Int64) :
    Dimension.Exact (a.mul b) (fun i => (a.exponent i).toInt + (b.exponent i).toInt) ∧
    Dimension.Exact (a.div b) (fun i => (a.exponent i).toInt - (b.exponent i).toInt) ∧
    (Dimension.Exact (a.pow n.toInt) (a.multiples n.toInt) ↔
      ((∀ i, Dimension.fits ((a.multiples n.toInt i).bmod (pow2 64)) = true) →
        ∀ i, Dimension.fits (a.multiples n.toInt i) = true)) ∧
    (∀ u power : PhysicalUnit, u.pow n.toInt = .ok power →
      u.dimension.pow n.toInt = .ok power.dimension ∧
      power.scale = Number.powInt u.scale (n.toInt.bmod (pow2 32))) ∧
    (∀ q power : Quantity, q.powInt n.toInt = .ok power →
      q.unit.pow n.toInt = .ok power.unit ∧
      power.magnitude = Number.powInt q.magnitude (n.toInt.bmod (pow2 32))) ∧
    (n.toInt.bmod (pow2 32) = n.toInt ↔ -pow2 31 ≤ n.toInt ∧ n.toInt < pow2 31) ∧
    (n.toInt.bmod (pow2 32) = n.toInt → Dimension.Exact (a.pow n.toInt) (a.multiples n.toInt)) := by
  refine ⟨Dimension.exact_ofExponents _, Dimension.exact_ofExponents _,
    Dimension.exact_pow_iff a n.toInt, fun u power made => ?_, fun q power made => ?_,
    bmod_narrow_iff, fun narrow => ?_⟩
  · obtain ⟨d, fits, result⟩ := bind_eq_ok.1 made
    rw [← Except.ok.inj result]
    exact ⟨ok_of_mapError fits, rfl⟩
  · obtain ⟨unit, raised, result⟩ := bind_eq_ok.1 made
    rw [← Except.ok.inj result]
    exact ⟨raised, rfl⟩
  · obtain ⟨low, high⟩ := bmod_narrow_iff.1 narrow
    exact Dimension.exact_pow_of_narrow a low high

/-- A fourth power of a length has no dimension once it is raised to `2^62`; and two to the power
of `2^32` is one, not beyond all doubles. -/
theorem powers_inexact :
    ({ length := 4 } : Dimension).pow (4611686018427387904 : Int64).toInt = .ok .none ∧
    ¬ Dimension.Exact (({ length := 4 } : Dimension).pow (4611686018427387904 : Int64).toInt)
      (({ length := 4 } : Dimension).multiples (4611686018427387904 : Int64).toInt) ∧
    ((Quantity.plain 2.0).powInt (4294967296 : Int64).toInt).toOption.map (·.magnitude.toBits) =
      some (Float.toBits 1.0) ∧
    (Number.powInt 2.0 (4294967296 : Int64).toInt).toBits = Float.toBits (1.0 / 0.0) := by
  have raised : ({ length := 4 } : Dimension).pow (4611686018427387904 : Int64).toInt =
      .ok .none := Dimension.pow_eq_ok_iff.2 fun i => by cases i <;> decide
  refine ⟨raised, fun lossless => ?_, by decide +kernel, by decide +kernel⟩
  obtain ⟨m, refused⟩ := lossless.overflow ⟨.length, by decide⟩
  rw [raised] at refused
  cases refused

end PulseSequencer
