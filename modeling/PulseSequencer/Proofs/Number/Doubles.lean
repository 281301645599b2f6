import PulseSequencer.Number.Arithmetic
import Mathlib

/-
# PulseSequencer.Proofs.Number.Doubles -- integers on their way through a double

`rounded53` keeps the first 53 bits of a number, rounded to nearest and halfway to even.
It changes nothing if and only if the number is narrow: `rounded53_eq_iff`.

An integer becomes a normal double with the first 53 bits of its magnitude
(`exists_ofInt`).  A normal double times one, or by one, is itself, so that the integer
nearest to it is the one that was rounded: `roundWithin_ofInt`.
-/

namespace PulseSequencer.Number

set_option autoImplicit false

/-! ## The first 53 bits -/

/-- The quotient by a power of two, to the nearest integer, and halfway to the even one. -/
def quotientToEven (n k : Nat) : Nat :=
  n / 2 ^ k + if 2 ^ k < 2 * (n % 2 ^ k) ∨ 2 * (n % 2 ^ k) = 2 ^ k ∧ n / 2 ^ k % 2 = 1 then 1 else 0

/-- A number with its first 53 bits, rounded to nearest. -/
def rounded53 (n : Nat) : Nat := quotientToEven n (n.log2 - 52) * 2 ^ (n.log2 - 52)

/-- An integer with the first 53 bits of its magnitude, rounded to nearest. -/
def toDouble (n : Int) : Int := n.sign * rounded53 n.natAbs

/-- Zeros at the end of a number are shifted out without a change. -/
theorem quotientToEven_shifted (n k j : Nat) :
    quotientToEven (n * 2 ^ j) (k + j) = quotientToEven n k := by
  have pos := Nat.two_pow_pos j
  have half : 2 * (n % 2 ^ k * 2 ^ j) = 2 * (n % 2 ^ k) * 2 ^ j := (Nat.mul_assoc ..).symm
  simp only [quotientToEven, Nat.pow_add, Nat.mul_div_mul_right _ _ pos, Nat.mul_mod_mul_right,
    half, Nat.mul_lt_mul_right pos, Nat.mul_left_inj (Nat.ne_of_gt pos)]

theorem log2_shifted {n : Nat} (some' : n ≠ 0) (j : Nat) : (n * 2 ^ j).log2 = n.log2 + j := by
  have pos := Nat.two_pow_pos j
  refine (Nat.log2_eq_iff (Nat.mul_ne_zero some' (Nat.ne_of_gt pos))).2 ⟨?_, ?_⟩
  · rw [Nat.pow_add]
    exact Nat.mul_le_mul_right _ (Nat.log2_self_le some')
  · rw [Nat.add_right_comm, Nat.pow_add]
    exact Nat.mul_lt_mul_of_pos_right Nat.lt_log2_self pos

theorem le_quotientToEven (n k : Nat) : n / 2 ^ k ≤ quotientToEven n k := Nat.le_add_right _ _

theorem quotientToEven_le (n k : Nat) : quotientToEven n k ≤ n / 2 ^ k + 1 := by
  rw [quotientToEven]
  split <;> omega

/-- What fits 53 bits is not rounded. -/
theorem rounded53_of_lt {n : Nat} (narrow : n < 2 ^ 53) : rounded53 n = n := by
  have none' : n.log2 - 52 = 0 := by
    rcases Nat.eq_zero_or_pos n with rfl | pos
    · rfl
    · have := (Nat.log2_lt (Nat.ne_of_gt pos)).2 narrow
      omega
  simp [rounded53, quotientToEven, none', Nat.mod_one]

/-- A number of more than 53 bits has 53 of them behind rounding, or is a power of two. -/
theorem quotientToEven_cases {n : Nat} (wide : 52 ≤ n.log2) :
    ∃ (m i : Nat), 2 ^ 52 ≤ m ∧ m < 2 ^ 53 ∧ i ≤ 1 ∧ quotientToEven n (n.log2 - 52) = m * 2 ^ i := by
  have some' : n ≠ 0 := by
    rintro rfl
    exact absurd wide (by decide)
  have low := Nat.log2_self_le some'
  have high := @Nat.lt_log2_self n
  have least : 2 ^ 52 ≤ n / 2 ^ (n.log2 - 52) := by
    rwa [Nat.le_div_iff_mul_le (Nat.two_pow_pos _), ← Nat.pow_add, Nat.add_sub_cancel' wide]
  have greatest : n / 2 ^ (n.log2 - 52) < 2 ^ 53 := by
    rw [Nat.div_lt_iff_lt_mul (Nat.two_pow_pos _), ← Nat.pow_add]
    rwa [show 53 + (n.log2 - 52) = n.log2 + 1 by omega]
  have from' := le_quotientToEven n (n.log2 - 52)
  have upto := quotientToEven_le n (n.log2 - 52)
  by_cases fits : quotientToEven n (n.log2 - 52) < 2 ^ 53
  · exact ⟨_, 0, Nat.le_trans least from', fits, by omega, (Nat.mul_one _).symm⟩
  · exact ⟨2 ^ 52, 1, Nat.le_refl _, by decide, by omega, by omega⟩

/-- Rounding does not double a number. -/
theorem rounded53_le (n : Nat) : rounded53 n ≤ 2 * n := by
  rcases Nat.eq_zero_or_pos n with rfl | pos
  · decide
  · have unit : 2 ^ (n.log2 - 52) ≤ n := Nat.le_trans
      (Nat.pow_le_pow_right (by decide) (Nat.sub_le ..)) (Nat.log2_self_le (Nat.ne_of_gt pos))
    calc rounded53 n ≤ (n / 2 ^ (n.log2 - 52) + 1) * 2 ^ (n.log2 - 52) :=
          Nat.mul_le_mul_right _ (quotientToEven_le ..)
      _ = n / 2 ^ (n.log2 - 52) * 2 ^ (n.log2 - 52) + 2 ^ (n.log2 - 52) := Nat.succ_mul ..
      _ ≤ n + n := Nat.add_le_add (Nat.div_mul_le_self ..) unit
      _ = 2 * n := (Nat.two_mul n).symm

theorem rounded53_of_dvd {n : Nat} (dvd : 2 ^ (n.log2 - 52) ∣ n) : rounded53 n = n := by
  have pos := Nat.two_pow_pos (n.log2 - 52)
  rw [rounded53, quotientToEven, Nat.mod_eq_zero_of_dvd dvd, if_neg (by omega), Nat.add_zero,
    Nat.div_mul_cancel dvd]

/-- Rounding does not lead beyond a power of two. -/
theorem rounded53_le_two_pow {n j : Nat} (le : n ≤ 2 ^ j) : rounded53 n ≤ 2 ^ j := by
  rcases Nat.lt_or_eq_of_le le with less | rfl
  · rcases Nat.eq_zero_or_pos n with rfl | pos
    · exact le
    · have inside : n.log2 - 52 ≤ j := by
        have := (Nat.log2_lt (Nat.ne_of_gt pos)).2 less
        omega
      have quotient : n / 2 ^ (n.log2 - 52) < 2 ^ (j - (n.log2 - 52)) := by
        rw [Nat.div_lt_iff_lt_mul (Nat.two_pow_pos _), ← Nat.pow_add, Nat.sub_add_cancel inside]
        exact less
      calc rounded53 n ≤ 2 ^ (j - (n.log2 - 52)) * 2 ^ (n.log2 - 52) :=
            Nat.mul_le_mul_right _ (Nat.le_trans (quotientToEven_le ..) quotient)
        _ = 2 ^ j := by rw [← Nat.pow_add, Nat.sub_add_cancel inside]
  · have dvd : 2 ^ ((2 ^ j).log2 - 52) ∣ 2 ^ j :=
      Nat.pow_dvd_pow 2 (by rw [Nat.log2_two_pow]; exact Nat.sub_le ..)
    exact Nat.le_of_eq (rounded53_of_dvd dvd)

/-- Whether a number has no more than 53 bits between its first and its last one. -/
def Narrow (n : Nat) : Prop := ∃ m k : Nat, n = m * 2 ^ k ∧ m < 2 ^ 53

/-- **A number is not rounded if and only if it is narrow.** -/
theorem rounded53_eq_iff {n : Nat} : rounded53 n = n ↔ Narrow n := by
  constructor
  · intro same
    have dvd : 2 ^ (n.log2 - 52) ∣ n := ⟨_, same.symm.trans (Nat.mul_comm ..)⟩
    refine ⟨n / 2 ^ (n.log2 - 52), n.log2 - 52, (Nat.div_mul_cancel dvd).symm, ?_⟩
    rw [Nat.div_lt_iff_lt_mul (Nat.two_pow_pos _), ← Nat.pow_add]
    exact Nat.lt_of_lt_of_le Nat.lt_log2_self (Nat.pow_le_pow_right (by decide) (by omega))
  · rintro ⟨m, k, rfl, fits⟩
    rcases Nat.eq_zero_or_pos m with rfl | pos
    · rw [Nat.zero_mul]
      rfl
    · have some' := Nat.ne_of_gt pos
      have size : m.log2 < 53 := (Nat.log2_lt some').2 fits
      have within : (m * 2 ^ k).log2 - 52 ≤ k := by
        rw [log2_shifted some']
        omega
      exact rounded53_of_dvd (Nat.dvd_mul_left_of_dvd (Nat.pow_dvd_pow 2 within) m)

theorem toDouble_bounds {n : Int} {j : Nat} (le : n.natAbs ≤ 2 ^ j) :
    -(2 ^ j : Nat) ≤ toDouble n ∧ toDouble n ≤ (2 ^ j : Nat) := by
  have bound := rounded53_le_two_pow le
  rw [toDouble]
  rcases Int.lt_trichotomy n 0 with negative | rfl | positive
  · rw [Int.sign_eq_neg_one_of_neg negative]
    omega
  · rw [Int.sign_zero]
    omega
  · rw [Int.sign_eq_one_of_pos positive]
    omega

theorem toDouble_eq_iff {n : Int} : toDouble n = n ↔ Narrow n.natAbs := by
  rw [← rounded53_eq_iff, toDouble]
  rcases Int.lt_trichotomy n 0 with negative | rfl | positive
  · rw [Int.sign_eq_neg_one_of_neg negative]
    omega
  · decide
  · rw [Int.sign_eq_one_of_pos positive]
    omega

open Float.Model UnpackedFloat

/-! ## Shifts -/

theorem repeat_shiftRightOne (n t : Nat) :
    Nat.repeat ExtendedMantissa.shiftRightOne (t + 1) ⟨n, false, false⟩ =
      ⟨n / 2 ^ (t + 1), n / 2 ^ t % 2 != 0, n % 2 ^ t != 0⟩ := by
  induction t with
  | zero => simp [Nat.repeat, ExtendedMantissa.shiftRightOne, Nat.mod_one]
  | succ t ih =>
      rw [Nat.repeat, ih]
      simp only [ExtendedMantissa.shiftRightOne, Nat.div_div_eq_div_mul, ← pow_succ]
      congr 1
      have cut := Nat.mod_pow_succ (b := 2) (k := t) (x := n)
      rw [cut]
      have pos : 0 < 2 ^ t := Nat.two_pow_pos t
      rcases Nat.mod_two_eq_zero_or_one (n / 2 ^ t) with bit | bit <;>
        simp [bit]

theorem roundedMantissa_shiftRight (n t : Nat) :
    (ExtendedMantissa.mk n false false >>> t).roundedMantissa = quotientToEven n t := by
  show (Nat.repeat ExtendedMantissa.shiftRightOne t ⟨n, false, false⟩).roundedMantissa = _
  cases t with
  | zero => simp [Nat.repeat, ExtendedMantissa.roundedMantissa, ExtendedMantissa.accuracy,
      Accuracy.roundToNearestEven, quotientToEven, Nat.mod_one]
  | succ t =>
      rw [repeat_shiftRightOne, quotientToEven]
      have cut := Nat.mod_pow_succ (b := 2) (k := t) (x := n)
      have below := Nat.mod_lt n (Nat.two_pow_pos t)
      have double : 2 ^ (t + 1) = 2 * 2 ^ t := Nat.pow_succ'
      rw [cut]
      generalize n / 2 ^ (t + 1) = q
      generalize n % 2 ^ t = r at below ⊢
      rw [double]
      generalize 2 ^ t = p at below ⊢
      rcases Nat.mod_two_eq_zero_or_one (n / p) with bit | bit
      · rw [bit, if_neg (by omega)]
        cases r with
        | zero => rfl
        | succ r => rfl
      · rw [bit]
        cases r with
        | zero =>
            show q + q % 2 = _
            split <;> omega
        | succ r =>
            rw [if_pos (by omega)]
            rfl

theorem mantissa_shiftRight (n t : Nat) :
    (ExtendedMantissa.mk n false false >>> t).mantissa = n / 2 ^ t := by
  show (Nat.repeat ExtendedMantissa.shiftRightOne t ⟨n, false, false⟩).mantissa = _
  cases t with
  | zero => exact (Nat.div_one n).symm
  | succ t => rw [repeat_shiftRightOne]

/-! ## Doubles in the shape in which they are packed -/

/-- The first 53 bits of a normal double, and where they stand. -/
structure Normal (m : Nat) (e : Int) : Prop where
  low : 2 ^ 52 ≤ m
  high : m < 2 ^ 53
  least : -1074 ≤ e
  greatest : e ≤ 971

theorem targetExponent_eq (e : Int) : Format.targetExponent .binary64 e = max (e - 53) (-1074) := by
  rfl

section Normal

variable {m : Nat} {e : Int} (normal : Normal m e)
include normal

theorem Normal.pos : 0 < m := Nat.lt_of_lt_of_le (Nat.two_pow_pos 52) normal.low

theorem Normal.log2 : m.log2 = 52 :=
  (Nat.log2_eq_iff (Nat.ne_of_gt normal.pos)).2 ⟨normal.low, normal.high⟩

theorem Normal.targetExponent (i : Nat) :
    Format.targetExponent .binary64 (totalExponent (m * 2 ^ i) (e - i)) = e := by
  rw [targetExponent_eq, totalExponent, log2_shifted (Nat.ne_of_gt normal.pos), normal.log2]
  have := normal.least
  omega

/-- Bits behind the first 53 are shifted out. -/
theorem Normal.shift (i : Nat) : shiftToTargetExponent .binary64 (m * 2 ^ i) (e - i) .exact =
    (ExtendedMantissa.mk (m * 2 ^ i) false false >>> i, e) := by
  have amount : (e - (e - i)).toNat = i := by omega
  rw [shiftToTargetExponent, normal.targetExponent, shiftToExponent, amount]
  refine Prod.ext rfl ?_
  show e - (i : Int) + (i : Int) = e
  omega

/-- What is left of a mantissa that was rounded. -/
theorem Normal.shifted (i : Nat) :
    (shiftToTargetExponent .binary64 (m * 2 ^ i) (e - i) .exact).1.mantissa = m ∧
      (shiftToTargetExponent .binary64 (m * 2 ^ i) (e - i) .exact).2 = e := by
  rw [normal.shift]
  refine ⟨?_, rfl⟩
  rw [mantissa_shiftRight, Nat.mul_div_cancel _ (Nat.two_pow_pos i)]

/-- **What fits a double is rounded to itself.** -/
theorem Normal.roundWithAccuracy (s : Sign) (j : Nat) :
    UnpackedFloat.roundWithAccuracy .binary64 s (m * 2 ^ j) (e - j) .exact =
      .finite s m e normal.pos := by
  have whole : (ExtendedMantissa.mk (m * 2 ^ j) false false >>> j).roundedMantissa = m := by
    have pos := Nat.two_pow_pos j
    rw [roundedMantissa_shiftRight, quotientToEven, Nat.mul_mod_left, Nat.mul_div_cancel _ pos,
      if_neg (by omega)]
    rfl
  obtain ⟨mantissa, exponent⟩ := normal.shifted 0
  rw [Nat.pow_zero, Nat.mul_one, Int.ofNat_zero, Int.sub_zero] at mantissa exponent
  rw [UnpackedFloat.roundWithAccuracy, normal.shift]
  dsimp only
  rw [whole, dif_neg (by rw [mantissa]; exact Nat.ne_of_gt normal.pos)]
  congr

end Normal

/-! ## Integers -/

/-- The whole number that a normal double stands for. -/
def Denotes (m : Nat) (e : Int) (n : Nat) : Prop := ∃ i j : Nat, e = i - j ∧ m * 2 ^ i = n * 2 ^ j

/-- **A number is rounded to its first 53 bits.** -/
theorem exists_normal {n j : Nat} (some' : n ≠ 0) (fits : n.log2 < 100) (room : 52 ≤ n.log2 + j)
    (s : Sign) : ∃ m e, ∃ normal : Normal m e, Denotes m e (rounded53 n) ∧
      roundWithAccuracy .binary64 s (n * 2 ^ j) (-j) .exact = .finite s m e normal.pos := by
  have low := Nat.log2_self_le some'
  have high := @Nat.lt_log2_self n
  by_cases wide : 52 ≤ n.log2
  · obtain ⟨m, i, least, greatest, one, whole⟩ := quotientToEven_cases wide
    have normal : Normal m ((n.log2 - 52 : Nat) + i : Int) :=
      ⟨least, greatest, by omega, by omega⟩
    refine ⟨m, _, normal, ⟨n.log2 - 52 + i, 0, by simp, ?_⟩, ?_⟩
    · rw [rounded53, whole, Nat.pow_add]
      ring
    · have target : Format.targetExponent .binary64 (totalExponent (n * 2 ^ j) (-j)) =
          (n.log2 - 52 : Nat) := by
        rw [targetExponent_eq, totalExponent, log2_shifted some']
        omega
      have amount : (((n.log2 - 52 : Nat) : Int) - -(j : Int)).toNat = n.log2 - 52 + j := by omega
      have exponent : -(j : Int) + ((n.log2 - 52 + j : Nat) : Int) =
          (n.log2 - 52 : Nat) + (i : Int) - (i : Nat) := by omega
      obtain ⟨mantissa, e⟩ := normal.shifted i
      rw [UnpackedFloat.roundWithAccuracy, shiftToTargetExponent, target, shiftToExponent, amount]
      dsimp only
      rw [exponent, ExtendedMantissa.ofMantissaAndAccuracy, roundedMantissa_shiftRight,
        quotientToEven_shifted, whole, dif_neg (by rw [mantissa]; exact Nat.ne_of_gt normal.pos)]
      congr
  · have narrow : n < 2 ^ 53 := (Nat.log2_lt some').1 (by omega)
    have shift : n * 2 ^ j = n * 2 ^ (52 - n.log2) * 2 ^ (j + n.log2 - 52) := by
      rw [Nat.mul_assoc, ← Nat.pow_add]
      congr 2
      omega
    have size := log2_shifted some' (52 - n.log2)
    rw [show n.log2 + (52 - n.log2) = 52 by omega, Nat.log2_eq_iff
      (Nat.mul_ne_zero some' (Nat.ne_of_gt (Nat.two_pow_pos _)))] at size
    have normal : Normal (n * 2 ^ (52 - n.log2)) (n.log2 - 52 : Int) :=
      ⟨size.1, size.2, by omega, by omega⟩
    refine ⟨_, _, normal, ⟨0, 52 - n.log2, by omega, ?_⟩, ?_⟩
    · rw [rounded53_of_lt narrow, Nat.pow_zero, Nat.mul_one]
    · rw [shift]
      have exponent : (-j : Int) = n.log2 - 52 - (j + n.log2 - 52 : Nat) := by omega
      rw [exponent]
      exact normal.roundWithAccuracy s _

/-! ## Bits -/

theorem exponent_ofBitVec (b : BitVec 64) : ((UInt64.ofBitVec b >>> 52) &&& 0x7FF).toNat =
    (@unpackExponent .binary64 b).toNat := by
  simp only [unpackExponent, BitVec.extractLsb, BitVec.toNat_cast, BitVec.extractLsb'_toNat]
  rw [UInt64.toNat_and, UInt64.toNat_shiftRight,
    show (0x7FF : UInt64).toNat = 2 ^ 11 - 1 from rfl, Nat.and_two_pow_sub_one_eq_mod]
  rfl

theorem mantissa_ofBitVec (b : BitVec 64) : (UInt64.ofBitVec b &&& 0xFFFFFFFFFFFFF).toNat =
    (@unpackMantissa .binary64 b).toNat := by
  simp only [unpackMantissa, BitVec.extractLsb, BitVec.toNat_cast, BitVec.extractLsb'_toNat]
  rw [UInt64.toNat_and, show (0xFFFFFFFFFFFFF : UInt64).toNat = 2 ^ 52 - 1 from rfl,
    Nat.and_two_pow_sub_one_eq_mod]
  rfl

theorem sign_ofBitVec (b : BitVec 64) : (UInt64.ofBitVec b >>> 63 == 1) =
    (@unpackSign .binary64 b == 1#1) := by
  have parts : (UInt64.ofBitVec b >>> 63).toNat = (@unpackSign .binary64 b).toNat := by
    simp only [unpackSign, BitVec.extractLsb, BitVec.toNat_cast, BitVec.extractLsb'_toNat]
    rw [UInt64.toNat_shiftRight]
    have size := b.isLt
    show b.toNat >>> 63 = b.toNat >>> 63 % 2 ^ 1
    rw [Nat.shiftRight_eq_div_pow]
    omega
  rw [Bool.eq_iff_iff, beq_iff_eq, beq_iff_eq, ← UInt64.toNat_inj, ← BitVec.toNat_inj, parts]
  rfl

/-- The sign of packed components. -/
theorem sign_of_components (format : Format) (s : Sign) (e : BitVec format.exponentBits)
    (m : BitVec format.mantissaBitsWithoutImplicit) :
    unpackSign (packComponents format s e m) = s.toBitVec := by
  refine BitVec.eq_of_getLsbD_eq fun i less => ?_
  obtain rfl : i = 0 := by omega
  simp [unpackSign, packComponents, BitVec.getLsbD_append, BitVec.getElem_append]

section Bits

variable {m : Nat} {e : Int} (normal : Normal m e) (s : Sign)
include normal

/-- A normal double is packed with its leading bit left out. -/
theorem Normal.pack : UnpackedFloat.pack .binary64 (.finite s m e normal.pos) =
    packComponents .binary64 s (BitVec.ofNat _ (e + 1075).toNat) (BitVec.ofNat _ m) := by
  have low := normal.least
  have high := normal.greatest
  have biased : (e + Format.binary64.exponentBias + Format.binary64.mantissaBitsWithoutImplicit).toNat =
      (e + 1075).toNat := by
    show (e + 1023 + 52).toNat = _
    omega
  rw [UnpackedFloat.pack]
  dsimp only
  rw [biased, normal.log2, if_neg, if_pos]
  · rfl
  · show ¬ 2 ^ 11 ≤ (e + 1075).toNat + 1
    omega

/-- **What is packed is unpacked again.** -/
theorem Normal.unpack : UnpackedFloat.unpack .binary64
    (UnpackedFloat.pack .binary64 (.finite s m e normal.pos)) = .finite s m e normal.pos := by
  have low := normal.least
  have high := normal.greatest
  have small : (e + 1075).toNat < 2 ^ 11 - 1 := by omega
  have some' : 0 < (e + 1075).toNat := by omega
  have exponent : (BitVec.ofNat 11 (e + 1075).toNat).toNat = (e + 1075).toNat := by
    rw [BitVec.toNat_ofNat, Nat.mod_eq_of_lt (by omega)]
  have notFull : BitVec.ofNat 11 (e + 1075).toNat ≠ -1#11 := by
    intro full
    have := congrArg BitVec.toNat full
    rw [exponent] at this
    exact absurd this (by simpa using Nat.ne_of_lt small)
  have notZero : BitVec.ofNat 11 (e + 1075).toNat ≠ 0#11 := by
    intro zero
    have := congrArg BitVec.toNat zero
    rw [exponent] at this
    exact absurd this (Nat.ne_of_gt some')
  have mantissa : (1#1 ++ BitVec.ofNat 52 m).toNat = m := by
    have low := normal.low
    have high := normal.high
    rw [BitVec.toNat_append, BitVec.toNat_ofNat, Nat.shiftLeft_eq, BitVec.toNat_ofNat,
      Nat.mul_comm, ← Nat.two_pow_add_eq_or_of_lt (Nat.mod_lt _ (Nat.two_pow_pos 52))]
    omega
  rw [normal.pack, UnpackedFloat.unpack]
  simp only [unpackMantissa_packComponents, unpackExponent_packComponents,
    sign_of_components]
  rw [if_neg notFull, if_neg notZero]
  congr
  · cases s <;> rfl
  · rw [exponent]
    show ((e + 1075).toNat : Int) - (1023 + 52) = e
    omega

/-- The bits of a normal double are read as its sign, its first 53 bits and their place. -/
theorem Normal.binary : Binary.ofFloat (.ofModel (.pack (.finite s m e normal.pos))) =
    .finite (s == .negative) m e := by
  have low := normal.low
  have high := normal.high
  have least := normal.least
  have greatest := normal.greatest
  have exponent : (BitVec.ofNat 11 (e + 1075).toNat).toNat = (e + 1075).toNat := by
    rw [BitVec.toNat_ofNat, Nat.mod_eq_of_lt (by omega)]
  rw [Binary.ofFloat, show (Float.ofModel (.pack (.finite s m e normal.pos))).toBits =
    UInt64.ofBitVec (UnpackedFloat.pack .binary64 (.finite s m e normal.pos)) from rfl,
    Binary.ofBits]
  rw [exponent_ofBitVec, mantissa_ofBitVec, sign_ofBitVec, normal.pack]
  simp only [unpackMantissa_packComponents, unpackExponent_packComponents,
    sign_of_components]
  rw [exponent, if_neg (by omega), if_neg (by omega), BitVec.toNat_ofNat]
  have mantissa : pow2 52 + m % 2 ^ 52 = m := by
    show 2 ^ 52 + m % 2 ^ 52 = m
    omega
  have place : Int.ofNat (e + 1075).toNat - 1075 = e := by
    show ((e + 1075).toNat : Int) - 1075 = e
    omega
  rw [mantissa, place]
  cases s <;> rfl

/-! ## Arithmetic with one -/

/-- A normal double. -/
def Normal.toFloat : Float := .ofModel (.pack (.finite s m e normal.pos))

theorem Normal.unpack_toFloat :
    (normal.toFloat s).toModel.unpack = .finite s m e normal.pos := normal.unpack s

omit normal in
theorem normal_one : Normal (2 ^ 52) (-52) := ⟨by decide, by decide, by decide, by decide⟩

omit normal in
theorem unpack_one : (1.0 : Float).toModel.unpack = .finite .positive (2 ^ 52) (-52) (by decide) := by
  rfl

theorem Normal.mul_one : normal.toFloat s * 1.0 = normal.toFloat s := by
  show Float.ofModel (.pack (UnpackedFloat.mul .binary64 (normal.toFloat s).toModel.unpack
    (1.0 : Float).toModel.unpack)) = _
  rw [normal.unpack_toFloat, unpack_one, UnpackedFloat.mul]
  have rounded := normal.roundWithAccuracy (s * .positive) 52
  rw [show e - (52 : Nat) = e + -52 from rfl] at rounded
  rw [rounded, Normal.toFloat]
  cases s <;> rfl

theorem Normal.div_one : normal.toFloat s / 1.0 = normal.toFloat s := by
  show Float.ofModel (.pack (UnpackedFloat.div .binary64 (normal.toFloat s).toModel.unpack
    (1.0 : Float).toModel.unpack)) = _
  rw [normal.unpack_toFloat, unpack_one, UnpackedFloat.div]
  obtain ⟨j, quotient⟩ : ∃ j : Nat, divCore .binary64 m e (2 ^ 52) (-52) =
      (m * 2 ^ j, e - j, .exact) := by
    have least := normal.least
    have totals : totalExponent m e - totalExponent (2 ^ 52) (-52) = e + 52 := by
      rw [totalExponent, totalExponent, normal.log2, normal_one.log2]
      omega
    -- One step is left to the left of the target, except where that would be too small.
    obtain ⟨j, target⟩ : ∃ j : Nat, min (e - -52) (max (e + 52 - 53) (-1074)) = e - j :=
      ⟨(e - min (e - -52) (max (e + 52 - 53) (-1074))).toNat, by omega⟩
    refine ⟨j, ?_⟩
    have amount : (e - -52 - (e - j)).toNat = j + 52 := by omega
    rw [divCore, totals, targetExponent_eq, target, amount, Nat.shiftLeft_eq, Nat.pow_add,
      ← Nat.mul_assoc, Nat.mul_div_cancel _ (Nat.two_pow_pos 52), Nat.mul_mod_left]
    rfl
  rw [quotient]
  dsimp only
  rw [normal.roundWithAccuracy, Normal.toFloat]
  cases s <;> rfl

theorem Normal.neg : -normal.toFloat s = normal.toFloat (-s) := by
  show Float.ofModel (.pack (UnpackedFloat.neg (normal.toFloat s).toModel.unpack)) = _
  rw [normal.unpack_toFloat, UnpackedFloat.neg]
  rfl

theorem Normal.isFinite : (normal.toFloat s).isFinite = true := by
  show UnpackedFloat.isFinite (normal.toFloat s).toModel.unpack = true
  rw [normal.unpack_toFloat]
  rfl

end Bits

theorem round_ofNat {n : Nat} (some' : n ≠ 0) (fits : n.log2 < 100) (s : Sign) :
    ∃ m e, ∃ normal : Normal m e, Denotes m e (rounded53 n) ∧
      UnpackedFloat.round .binary64 s n 0 = .finite s m e normal.pos := by
  obtain ⟨m, e, normal, denotes, rounds⟩ :=
    exists_normal some' fits (j := 52 - n.log2) (by omega) s
  refine ⟨m, e, normal, denotes, ?_⟩
  have target : Format.targetExponent .binary64 (totalExponent n 0) = n.log2 - 52 := by
    rw [targetExponent_eq, totalExponent]
    omega
  have amount : (0 - ((n.log2 : Int) - 52)).toNat = 52 - n.log2 := by omega
  rw [UnpackedFloat.round, target, decreaseExponent, amount]
  dsimp only
  rw [Nat.shiftLeft_eq, Int.zero_sub, rounds]

/-- A number that is not zero as a normal double. -/
theorem exists_ofNat {n : Nat} (some' : n ≠ 0) (fits : n.log2 < 100) :
    ∃ m e, ∃ normal : Normal m e, Denotes m e (rounded53 n) ∧
      Float.ofNat n = normal.toFloat .positive := by
  by_cases narrow : n < 2 ^ 53
  · obtain ⟨m, e, normal, denotes, rounds⟩ := round_ofNat some' fits .positive
    refine ⟨m, e, normal, denotes, ?_⟩
    have whole : n.toUInt64.toNat = n := Nat.mod_eq_of_lt (by omega)
    have converted : n.toUInt64.toFloat = normal.toFloat .positive := by
      show Float.ofModel (.pack (UnpackedFloat.normalize .binary64 n.toUInt64.toNat 0 .positive)) = _
      rw [whole, UnpackedFloat.normalize, show compare (n : Int) 0 = .gt from
        compare_gt_iff_gt.2 (by omega)]
      dsimp only
      rw [Int.toNat_natCast, rounds, Normal.toFloat]
    show Float.ofScientific n false 0 = _
    rw [Float.ofScientific, dif_pos ⟨narrow, by decide⟩]
    dsimp only
    rw [if_neg Bool.false_ne_true, converted]
    exact normal.mul_one .positive
  · obtain ⟨m, e, normal, denotes, rounds⟩ :=
      exists_normal some' fits (j := 53) (by omega) .positive
    refine ⟨m, e, normal, denotes, ?_⟩
    show Float.ofScientific n false 0 = _
    rw [Float.ofScientific, dif_neg (by omega)]
    show Float.ofModel (.pack (UnpackedFloat.ofScientific .binary64 n 0)) = _
    have inside : ¬ (0 : Int) < -(2 ^ 11 + (n.log2 : Int)) := by omega
    rw [UnpackedFloat.ofScientific, dif_neg some', if_neg (by decide), if_neg inside,
      if_pos (by decide), UnpackedFloat.mul]
    have shifted : n <<< Format.binary64.mantissaBits * 10 ^ (0 : Int).toNat = n * 2 ^ 53 := by
      rw [Nat.shiftLeft_eq]
      exact Nat.mul_one _
    rw [shifted]
    exact congrArg (fun u => Float.ofModel (.pack u)) rounds

theorem exists_ofInt {n : Int} (some' : n ≠ 0) (fits : n.natAbs.log2 < 100) :
    ∃ m e, ∃ normal : Normal m e, Denotes m e (rounded53 n.natAbs) ∧
      Float.ofInt n = normal.toFloat (if n < 0 then .negative else .positive) := by
  obtain ⟨m, e, normal, denotes, double⟩ := exists_ofNat (Int.natAbs_ne_zero.2 some') fits
  refine ⟨m, e, normal, denotes, ?_⟩
  cases n with
  | ofNat k =>
      rw [if_neg (show ¬ Int.ofNat k < 0 from Int.not_lt.2 (Int.natCast_nonneg k))]
      exact double
  | negSucc k =>
      rw [if_pos (Int.negSucc_lt_zero k)]
      show -Float.ofNat (k + 1) = _
      rw [show Float.ofNat (k + 1) = _ from double]
      exact normal.neg .positive

/-- What stands for a whole number is rounded to it. -/
theorem apply_of_denotes {m n : Nat} {e : Int} (denotes : Denotes m e n) (negative : Bool) :
    Rounding.halfToEven.apply negative m e = n := by
  obtain ⟨i, j, rfl, same⟩ := denotes
  rcases Nat.le_total j i with le | le
  · obtain ⟨k, rfl⟩ := Nat.exists_eq_add_of_le le
    have place : ((j + k : Nat) : Int) - j = Int.ofNat k := by
      show ((j + k : Nat) : Int) - j = k
      omega
    rw [Nat.pow_add, Nat.mul_comm (2 ^ j), ← Nat.mul_assoc] at same
    have whole := Nat.eq_of_mul_eq_mul_right (Nat.two_pow_pos j) same
    rw [place, Rounding.apply]
    exact whole
  · obtain ⟨k, rfl⟩ := Nat.exists_eq_add_of_le le
    rw [Nat.pow_add, Nat.mul_comm (2 ^ i), ← Nat.mul_assoc] at same
    have whole := Nat.eq_of_mul_eq_mul_right (Nat.two_pow_pos i) same
    subst whole
    cases k with
    | zero =>
        rw [show (i : Int) - ((i + 0 : Nat) : Int) = Int.ofNat 0 from Int.sub_self _, Rounding.apply]
        exact (Nat.mul_one _).trans (Nat.mul_one n)
    | succ k =>
        have place : (i : Int) - ((i + (k + 1) : Nat) : Int) = Int.negSucc k := by omega
        have pos := Nat.two_pow_pos (k + 1)
        have half : Binary.compareHalf (n * 2 ^ (k + 1)) (Int.negSucc k) = .lt := by
          show compare (2 * (n * 2 ^ (k + 1) % 2 ^ (k + 1))) (2 ^ (k + 1)) = .lt
          rw [Nat.mul_mod_left]
          exact compare_lt_iff_lt.2 pos
        have whole : Binary.wholePart (n * 2 ^ (k + 1)) (Int.negSucc k) = n :=
          Nat.mul_div_cancel n pos
        rw [place, Rounding.apply, half, whole]
        rfl

/-- **An integer is rounded to 53 bits on its way through a double.** -/
theorem roundWithin_ofInt {n : Int} (low : -2 ^ 64 < n) (high : n < 2 ^ 64) :
    (Float.ofInt n * 1.0).isFinite = true ∧
      roundWithin .halfToEven (-pow2 127) (pow2 127 - 1) (Float.ofInt n * 1.0 / 1.0) =
        toDouble n := by
  by_cases zero : n = 0
  · subst zero
    exact ⟨by decide +kernel, by decide +kernel⟩
  · have narrow : n.natAbs < 2 ^ 64 := by omega
    have fits : n.natAbs.log2 < 100 := by
      have := (Nat.log2_lt (Int.natAbs_ne_zero.2 zero)).2 narrow
      omega
    obtain ⟨m, e, normal, denotes, double⟩ := exists_ofInt zero fits
    rw [double, normal.mul_one, normal.div_one]
    refine ⟨normal.isFinite _, ?_⟩
    rw [roundWithin, Normal.toFloat, normal.binary]
    dsimp only
    rw [apply_of_denotes denotes, toDouble]
    have bound := rounded53_le n.natAbs
    have wide : (pow2 127 : Int) = 2 ^ 127 := by rfl
    rw [wide]
    by_cases negative : n < 0
    · rw [if_pos negative, Int.sign_eq_neg_one_of_neg negative]
      show max _ (min _ (-(rounded53 n.natAbs : Int))) = _
      omega
    · rw [if_neg negative, Int.sign_eq_one_of_pos (by omega)]
      show max _ (min _ (rounded53 n.natAbs : Int)) = _
      omega

end PulseSequencer.Number
