import PulseSequencer.Proofs.Encoding.Range
import Mathlib.Tactic.Ring

/-
# PulseSequencer.Proofs.Encoding.Nearest -- how far a word is from what it stands for

The nearest count, of two that are equally near the even one, is unique (`Nearest.unique`); it
grows with what is rounded, and an even number of counts more shifts it by as much.  Words are
not ordered like the magnitudes, but the counts that they are read back as are, so that encoding
is monotone and loses half a step at most.  A period of the table is an even number of steps:
whole periods are lost, and nothing else beyond the half step.

The table is read exactly in two ways: as the decimal numbers that it is written in, and as the
rational numbers that its doubles are (`exactTable`).  Where the step count of a double is
inside the range in which doubles are rounded to integers, only the division by the step is
left to tell the two apart: `encode?_eq_exactly`.

Main statement: `nearest_of_mem_table`.
-/

namespace PulseSequencer

set_option autoImplicit false

/-! ## The nearest integer -/

/-- **There is one nearest integer.** -/
theorem Nearest.unique {n m : Int} {x : Rat} (one : Nearest n x) (other : Nearest m x) : n = m := by
  wlog le : n ≤ m generalizing n m
  · exact (this other one (Int.le_of_lt (Int.not_le.1 le))).symm
  obtain ⟨nBelow, nAbove⟩ := abs_le.1 one.within
  obtain ⟨mBelow, mAbove⟩ := abs_le.1 other.within
  by_contra differ
  have next : m = n + 1 := by
    have : (m : Rat) ≤ n + 1 := by linarith
    have : m ≤ n + 1 := by exact_mod_cast this
    omega
  subst next
  push_cast at mBelow mAbove
  have nEven := one.even_of_tie (by rw [abs_of_nonpos (by linarith)]; linarith)
  have mEven := other.even_of_tie (by push_cast; rw [abs_of_nonneg (by linarith)]; linarith)
  omega

theorem nearestInt_mono {x y : Rat} (le : x ≤ y) : nearestInt x ≤ nearestInt y := by
  obtain ⟨_, xAbove⟩ := abs_le.1 (nearest_nearestInt x).within
  obtain ⟨yBelow, _⟩ := abs_le.1 (nearest_nearestInt y).within
  by_contra less
  have next : (nearestInt y : Rat) + 1 ≤ nearestInt x := by exact_mod_cast Int.not_le.1 less
  -- both are then half a unit away, from one and the same number
  obtain rfl : x = y := by linarith
  exact less le_rfl

/-- An even number more shifts the nearest integer by as much. -/
theorem nearestInt_add_even {m : Int} (even : m % 2 = 0) (x : Rat) :
    nearestInt (x + m) = nearestInt x + m := by
  have near := nearest_nearestInt x
  have same : ((nearestInt x + m : Int) : Rat) - (x + m) = nearestInt x - x := by push_cast; ring
  refine (nearest_nearestInt (x + m)).unique ⟨same ▸ near.within, fun tie => ?_⟩
  have := near.even_of_tie (same ▸ tie)
  omega

theorem Nearest.neg {n : Int} {x : Rat} (near : Nearest n x) : Nearest (-n) (-x) := by
  have same : |((-n : Int) : Rat) - -x| = |(n : Rat) - x| := by
    rw [← abs_neg]
    push_cast
    ring_nf
  exact ⟨same ▸ near.within, fun tie => by have := near.even_of_tie (same ▸ tie); omega⟩

/-! ## Doubles -/

namespace Binary

/-- The number `m · 2^e`. -/
def size (mantissa : Nat) : Int → Rat
  | .ofNat k => (mantissa * pow2 k : Nat)
  | .negSucc k => (mantissa : Rat) / pow2 (k + 1)

/-- The rational number that a finite double is. -/
def value? : Binary → Option Rat
  | .finite negative mantissa exponent =>
      some (if negative then -size mantissa exponent else size mantissa exponent)
  | .infinite _ | .nan => none

end Binary

/-- A quotient is rounded by its remainder. -/
theorem nearestInt_quotient (m : Nat) {p : Nat} (some' : 0 < p) :
    nearestInt ((m : Rat) / p) = if 2 * (m % p) < p then ((m / p : Nat) : Int)
      else if p < 2 * (m % p) then (m / p : Nat) + 1
      else if ((m / p : Nat) : Int) % 2 = 0 then ((m / p : Nat) : Int) else (m / p : Nat) + 1 := by
  have pos : (0 : Rat) < p := by exact_mod_cast some'
  have fraction : (m : Rat) / p - (m / p : Nat) = (m % p : Nat) / (p : Rat) := by
    rw [sub_eq_iff_eq_add', add_div' _ _ _ pos.ne']
    congr 1
    exact_mod_cast (Nat.div_add_mod' m p).symm
  have floor : ((m : Rat) / p).floor = (m / p : Nat) := Rat.floor_natCast_div_natCast m p
  have below : (m % p : Nat) / (p : Rat) < 1 / 2 ↔ 2 * (m % p) < p := by
    rw [div_lt_div_iff₀ pos two_pos, one_mul, mul_comm]
    exact_mod_cast Iff.rfl
  have above : 1 / 2 < (m % p : Nat) / (p : Rat) ↔ p < 2 * (m % p) := by
    rw [div_lt_div_iff₀ two_pos pos, one_mul, mul_comm]
    exact_mod_cast Iff.rfl
  rw [nearestInt, floor, Int.cast_natCast, fraction]
  simp only [below, above]

/-- **Rounding the parts of a double is rounding the number that they make up.** -/
theorem apply_halfToEven (negative : Bool) (mantissa : Nat) (exponent : Int) :
    (Number.Rounding.apply .halfToEven negative mantissa exponent : Int) =
      nearestInt (Binary.size mantissa exponent) := by
  cases exponent with
  | ofNat k => exact (nearestInt_intCast (mantissa * pow2 k : Nat)).symm
  | negSucc k =>
      show ((if compare (2 * (mantissa % pow2 (k + 1))) (pow2 (k + 1)) == .gt ||
          (compare (2 * (mantissa % pow2 (k + 1))) (pow2 (k + 1)) == .eq &&
            mantissa / pow2 (k + 1) % 2 == 1)
        then mantissa / pow2 (k + 1) + 1 else mantissa / pow2 (k + 1) : Nat) : Int) =
          nearestInt ((mantissa : Rat) / pow2 (k + 1))
      rw [nearestInt_quotient mantissa (pow2_pos (k + 1))]
      generalize pow2 (k + 1) = p
      rcases Nat.lt_trichotomy (2 * (mantissa % p)) p with less | middle | more
      · rw [compare_lt_iff_lt.2 less, if_pos less]
        rfl
      · rw [compare_eq_iff_eq.2 middle]
        rcases Nat.mod_two_eq_zero_or_one (mantissa / p) with even | odd
        · rw [even]
          show ((mantissa / p : Nat) : Int) = _
          rw [if_neg (by omega), if_neg (by omega), if_pos (by omega)]
        · rw [odd]
          show ((mantissa / p + 1 : Nat) : Int) = _
          rw [if_neg (by omega), if_neg (by omega), if_neg (by omega)]
          rfl
      · rw [compare_gt_iff_gt.2 more]
        show ((mantissa / p + 1 : Nat) : Int) = _
        rw [if_neg (by omega), if_pos more]
        rfl

theorem nearestInt_neg (x : Rat) : nearestInt (-x) = -nearestInt x :=
  (nearest_nearestInt (-x)).unique (nearest_nearestInt x).neg

/-- **A double is rounded as the number that it is**, as far as that is inside the range. -/
theorem nearest_of_value {x : Float} {v : Rat} (value : (Binary.ofFloat x).value? = some v)
    (inside : |v| < pow2 126) : Magnitude.nearest x = nearestInt v := by
  obtain ⟨low, high⟩ := abs_le.1 (nearest_nearestInt v).within
  obtain ⟨lower, upper⟩ := abs_lt.1 inside
  have held : -(pow2 126 : Int) ≤ nearestInt v ∧ nearestInt v ≤ pow2 126 := by
    have below : (-(pow2 126 : Int) - 1 : Rat) < nearestInt v := by push_cast; linarith
    have above : (nearestInt v : Rat) < (pow2 126 : Int) + 1 := by push_cast; linarith
    have below' : -(pow2 126 : Int) - 1 < nearestInt v := by exact_mod_cast below
    have above' : nearestInt v < (pow2 126 : Int) + 1 := by exact_mod_cast above
    omega
  have range : (pow2 127 : Int) = 2 * pow2 126 := by rw [pow2_succ]; push_cast; rfl
  have wide := pow2_pos 126
  show Number.roundWithin .halfToEven (-pow2 127) (pow2 127 - 1) x = _
  rw [Number.roundWithin]
  cases parts : Binary.ofFloat x with
  | finite negative mantissa exponent =>
      rw [parts] at value
      dsimp only
      rw [show Int.ofNat _ = _ from apply_halfToEven negative mantissa exponent]
      obtain rfl := Option.some.inj value
      have signed : (if negative = true then -nearestInt (Binary.size mantissa exponent)
          else nearestInt (Binary.size mantissa exponent)) = nearestInt
            (if negative = true then -Binary.size mantissa exponent
              else Binary.size mantissa exponent) := by
        split
        · exact (nearestInt_neg _).symm
        · rfl
      rw [signed]
      omega
  | infinite negative => rw [parts] at value; cases value
  | nan => rw [parts] at value; cases value

namespace Encoding

/-! ## Exact readings -/

/-- An encoding of doubles with the rational numbers that its step and its limits are. -/
def exactly (d : Encoding Float) : Encoding Rat :=
  let value (x : Float) : Rat := (Binary.ofFloat x).value?.getD 0
  { d with step := value d.step, lower := value d.lower, upper := value d.upper }

def exactTable : List (Encoding Rat) := (table : List (Encoding Float)).map exactly

/-- A period starts at zero and fills its words. -/
def Turns (e : Encoding Rat) : Prop := e.periodic = true → e.minSteps = 0 ∧ e.maskBits = e.bits

instance (e : Encoding Rat) : Decidable e.Turns := inferInstanceAs (Decidable (_ → _))

/-- What the bounds below rest on. -/
structure Regular (e : Encoding Rat) : Prop where
  coherent : e.Coherent
  even : e.EvenLimits
  turns : e.Turns

instance (e : Encoding Rat) : Decidable e.Regular :=
  decidable_of_iff (e.Coherent ∧ e.EvenLimits ∧ e.Turns)
    ⟨fun ⟨coherent, even, turns⟩ => ⟨coherent, even, turns⟩,
      fun r => ⟨r.coherent, r.even, r.turns⟩⟩

/-- **Every encoding of the table is regular, in either reading.** -/
theorem regular_table : ∀ e ∈ table ++ exactTable, e.Regular := by
  decide +kernel

theorem steps_exactly : ∀ d ∈ (table : List (Encoding Float)),
    d.minSteps = d.exactly.minSteps ∧ d.maxSteps = d.exactly.maxSteps := by
  decide +kernel

section Exactly

variable {d : Encoding Float} (known : d ∈ (table : List (Encoding Float)))
include known

theorem encodeSteps?_exactly (steps : Int) :
    d.encodeSteps? steps = d.exactly.encodeSteps? steps := by
  obtain ⟨min, max⟩ := steps_exactly d known
  have admitted : d.admit? steps = d.exactly.admit? steps := by
    rw [admit?, admit?, min, max]
    rfl
  have written : d.layOut = d.exactly.layOut := by
    funext steps
    rw [layOut, layOut, min]
    rfl
  rw [encodeSteps?, encodeSteps?, admitted, written]

theorem decodeSteps_exactly (word : UInt64) : d.decodeSteps word = d.exactly.decodeSteps word := by
  rw [decodeSteps, decodeSteps, (steps_exactly d known).1]
  rfl

/-- **Only the division by the step tells doubles and their exact reading apart.** -/
theorem encode?_eq_exactly {x : Float} {v : Rat}
    (quotient : (Binary.ofFloat (x / d.step)).value? = some v) (inside : |v| < pow2 126) :
    d.encode? x = d.exactly.encodeSteps? (nearestInt v) := by
  rw [encode?, nearest_of_value quotient inside]
  exact encodeSteps?_exactly known _

end Exactly

/-! ## Magnitudes and the words that are nearest to them -/

section Regular

variable {e : Encoding Rat}

/-- A word is read back as the count that was admitted for it. -/
theorem Coherent.of_encode? (coherent : e.Coherent) {v : Rat} {word : UInt64}
    (encoded : e.encode? v = some word) :
    ∃ steps, e.admit? (nearestInt (v / e.step)) = some steps ∧ e.decode word = steps * e.step := by
  obtain ⟨steps, admitted, rfl⟩ := Option.map_eq_some_iff.1 encoded
  refine ⟨steps, admitted, ?_⟩
  rw [decode_eq, coherent.decodeSteps_layOut (coherent.mem_of_admit? admitted)]

/-- Where the range is no period, the count is the rounded one. -/
theorem Coherent.decode_of_bounded (coherent : e.Coherent) (bounded : e.periodic = false) {v : Rat}
    {word : UInt64} (encoded : e.encode? v = some word) :
    e.decode word = nearestInt (v / e.step) * e.step := by
  obtain ⟨steps, admitted, read⟩ := coherent.of_encode? encoded
  rw [admit?, if_neg (by simp [bounded])] at admitted
  split at admitted
  · cases admitted
  · rw [read, Option.some.inj admitted]

/-- What a count is away from a magnitude, in steps. -/
theorem Coherent.distance (coherent : e.Coherent) (steps : Int) (v : Rat) :
    |steps * e.step - v| = |steps - v / e.step| * e.step := by
  have pos := coherent.step_pos
  rw [← abs_of_pos pos, ← abs_mul, abs_of_pos pos, sub_mul, div_mul_cancel₀ _ pos.ne']

/-- **Half a step is lost at most**, and at a tie the even count is taken. -/
theorem Coherent.near (coherent : e.Coherent) (v : Rat) :
    |nearestInt (v / e.step) * e.step - v| ≤ e.step / 2 ∧
      (|nearestInt (v / e.step) * e.step - v| = e.step / 2 → nearestInt (v / e.step) % 2 = 0) := by
  have pos := coherent.step_pos
  have near := nearest_nearestInt (v / e.step)
  rw [coherent.distance]
  refine ⟨?_, fun tie => near.even_of_tie ?_⟩
  · calc |nearestInt (v / e.step) - v / e.step| * e.step ≤ 1 / 2 * e.step :=
          mul_le_mul_of_nonneg_right near.within pos.le
      _ = e.step / 2 := by ring
  · refine mul_right_cancel₀ pos.ne' ?_
    rw [tie]
    ring

/-- Where the range is a period, the count is the remainder of the rounded one. -/
theorem Regular.encode?_eq (regular : e.Regular) (periodic : e.periodic = true) (v : Rat) :
    e.encode? v = some (e.layOut (nearestInt (v / e.step) % e.maxSteps)) := by
  have zero := (regular.turns periodic).1
  show e.encodeSteps? (nearestInt (v / e.step)) = _
  rw [encodeSteps?, admit?, if_pos ⟨periodic, zero⟩]
  rfl

/-- **Whole periods are lost.** -/
theorem Regular.encode?_add_periods (regular : e.Regular) (periodic : e.periodic = true) (v : Rat)
    (k : Int) : e.encode? (v + k * e.upper) = e.encode? v := by
  have pos := regular.coherent.step_pos
  have shifted : (v + k * e.upper) / e.step = v / e.step + (k * e.maxSteps : Int) := by
    rw [regular.coherent.upper_eq, add_div, ← mul_assoc, mul_div_cancel_right₀ _ pos.ne']
    push_cast
    rfl
  have even : k * e.maxSteps % 2 = 0 := by rw [Int.mul_emod, regular.even.2]; simp
  rw [regular.encode?_eq periodic, regular.encode?_eq periodic, shifted, nearestInt_add_even even,
    Int.add_mul_emod_self_right]

/-- **Nothing but whole periods is lost beyond half a step.** -/
theorem Regular.near_of_periodic (regular : e.Regular) (periodic : e.periodic = true) {v : Rat}
    {word : UInt64} (encoded : e.encode? v = some word) :
    ∃ turns : Int, |e.decode word - (v + turns * e.upper)| ≤ e.step / 2 := by
  have coherent := regular.coherent
  obtain ⟨steps, admitted, read⟩ := coherent.of_encode? encoded
  rw [admit?, if_pos ⟨periodic, (regular.turns periodic).1⟩] at admitted
  -- the turns that the remainder leaves out
  refine ⟨-(nearestInt (v / e.step) / e.maxSteps), ?_⟩
  have count : (steps : Rat) =
      nearestInt (v / e.step) - (nearestInt (v / e.step) / e.maxSteps : Int) * e.maxSteps := by
    have remainder := Int.emod_def (nearestInt (v / e.step)) e.maxSteps
    rw [← Option.some.inj admitted, remainder]
    push_cast
    ring
  have same : e.decode word -
      (v + (-(nearestInt (v / e.step) / e.maxSteps) : Int) * e.upper) =
        nearestInt (v / e.step) * e.step - v := by
    rw [read, count, coherent.upper_eq]
    push_cast
    ring
  rw [same]
  exact (coherent.near v).1

end Regular

/-- **Encoding is monotone and nearest, and blind to whole periods.**  Where the range is no
period, greater magnitudes stand for no lesser ones, and a word stands for the nearest multiple of
the step, at a tie for the even one.  Where it is a period, every magnitude has a word of its
width, which is that of the magnitude any number of periods away, and stands for what is half a
step from it at most up to whole periods.  This is said of the table in either exact reading, and
the step counts of the doubles are taken through the same words: below `2^126` a double is rounded
as the number that it is. -/
theorem nearest_of_mem_table {e : Encoding Rat} (known : e ∈ table ++ exactTable) :
    (e.periodic = false →
      (∀ (a b : Rat) (low high : UInt64), a ≤ b → e.encode? a = some low →
        e.encode? b = some high → e.decode low ≤ e.decode high) ∧
      ∀ (a : Rat) (word : UInt64), e.encode? a = some word →
        |e.decode word - a| ≤ e.step / 2 ∧
          (|e.decode word - a| = e.step / 2 →
            ∃ steps : Int, e.decode word = steps * e.step ∧ steps % 2 = 0)) ∧
    (e.periodic = true → ∀ v : Rat, ∃ word, e.encode? v = some word ∧
      word.toNat < pow2 e.bits ∧ (∀ k : Int, e.encode? (v + k * e.upper) = some word) ∧
      ∃ turns : Int, |e.decode word - (v + turns * e.upper)| ≤ e.step / 2) ∧
    ∀ d ∈ (table : List (Encoding Float)), d.exactly = e →
      (∀ word, d.decodeSteps word = e.decodeSteps word) ∧
      ∀ (x : Float) (v : Rat), (Binary.ofFloat (x / d.step)).value? = some v → |v| < pow2 126 →
        d.encode? x = e.encodeSteps? (nearestInt v) := by
  have regular := regular_table e known
  have coherent := regular.coherent
  refine ⟨fun bounded => ⟨fun a b low high le encodedLow encodedHigh => ?_,
    fun a word encoded => ?_⟩, fun periodic v => ?_, ?_⟩
  · rw [coherent.decode_of_bounded bounded encodedLow,
      coherent.decode_of_bounded bounded encodedHigh]
    have counts := nearestInt_mono (div_le_div_of_nonneg_right le coherent.step_pos.le)
    exact mul_le_mul_of_nonneg_right (by exact_mod_cast counts) coherent.step_pos.le
  · rw [coherent.decode_of_bounded bounded encoded]
    obtain ⟨within, even⟩ := coherent.near a
    exact ⟨within, fun tie => ⟨_, rfl, even tie⟩⟩
  · have encoded := regular.encode?_eq periodic v
    refine ⟨_, encoded, ?_, fun k => ?_, regular.near_of_periodic periodic encoded⟩
    · rw [← (regular.turns periodic).2]
      exact layOut_lt coherent.width _
    · rw [regular.encode?_add_periods periodic, encoded]
  · rintro d listed rfl
    exact ⟨decodeSteps_exactly listed, fun x v quotient inside =>
      encode?_eq_exactly listed quotient inside⟩

/-- The phase of a synthesizer, a full turn in `2^14` steps. -/
def phase (α : Type) [Magnitude α] : Encoding α :=
  { unsigned "AD9912_PHASE" 14 "deg" 360.0 with periodic := true }

/-- A voltage of a converter in offset binary. -/
def offsetVoltage : Encoding Rat := signed "ADC7606_VOLTAGE_OFFSET" 16 "V" 5.0 .offset

/-- A phase that is rounded up to the full turn has the word zero, five turns less as well; a
voltage one and a half steps below zero has the word of two steps below it; and a quarter of a
turn back is exact in doubles. -/
theorem nearest_of_mem_table_phase :
    phase Rat ∈ table ++ exactTable ∧ (phase Rat).periodic = true ∧
    (phase Rat).encode? (359.995 + ((-5 : Int) : Rat) * (phase Rat).upper) = some 0 ∧
    (∃ turns : Int, |(phase Rat).decode 0 - (359.995 + turns * (phase Rat).upper)| ≤
      (phase Rat).step / 2) ∧
    offsetVoltage ∈ table ++ exactTable ∧ offsetVoltage.periodic = false ∧
    offsetVoltage.encode? (-3 / 2 * offsetVoltage.step) = some 0x7FFE ∧
    |offsetVoltage.decode 0x7FFE - -3 / 2 * offsetVoltage.step| ≤ offsetVoltage.step / 2 ∧
    offsetVoltage.decode 0x7FFE ≤ offsetVoltage.decode 0x8000 ∧
    (phase Float).exactly ∈ table ++ exactTable ∧
    (phase Float).encode? (-90.0) = (phase Float).exactly.encodeSteps? (nearestInt (-4096)) := by
  have turning : phase Rat ∈ table ++ exactTable :=
    List.mem_append_left _ (by simp [table, phase])
  have voltage : offsetVoltage ∈ table ++ exactTable :=
    List.mem_append_left _ (by simp [table, offsetVoltage])
  have listed : phase Float ∈ table := by simp [table, phase]
  have doubles : (phase Float).exactly ∈ table ++ exactTable :=
    List.mem_append_right _ (List.mem_map.2 ⟨_, listed, rfl⟩)
  obtain ⟨word, encoded, _, turned, close⟩ :=
    (nearest_of_mem_table turning).2.1 rfl 359.995
  obtain rfl : word = 0 := Option.some.inj (encoded.symm.trans (by decide +kernel))
  have tie : offsetVoltage.encode? (-3 / 2 * offsetVoltage.step) = some 0x7FFE := by
    decide +kernel
  have zero : offsetVoltage.encode? 0 = some 0x8000 := by decide +kernel
  obtain ⟨monotone, near⟩ := (nearest_of_mem_table voltage).1 rfl
  exact ⟨turning, rfl, turned (-5), close, voltage, rfl, tie, (near _ _ tie).1,
    monotone _ _ _ _ (by decide +kernel) tie zero, doubles,
    ((nearest_of_mem_table doubles).2.2 _ listed rfl).2 (-90.0) (-4096) (by decide +kernel)
      (by decide +kernel)⟩

end Encoding

end PulseSequencer
