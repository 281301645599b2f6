import PulseSequencer.Encoding.Word
import PulseSequencer.Proofs.Encoding.Inverse

/-
# PulseSequencer.Proofs.Encoding.Range -- which magnitudes have a word

The range of an encoding is checked on the step count, behind the rounding.  A rounded count is
within half a unit, and even at a tie (`Nearest`), so that an even integer is reached from half a
unit below it on (`le_nearestInt_iff`); and all limits of the table are even step counts
(`evenLimits_table`).  So the magnitudes with a word are those of the documented range moved down
by half a step: too many below the lower limit, too few below the upper one.

Main statement: `accepted_iff_of_mem_table`.
-/

namespace PulseSequencer

set_option autoImplicit false

/-! ## Rounding -/

/-- An integer that no other is nearer than; of two that are equally near it is the even one. -/
structure Nearest (n : Int) (x : Rat) : Prop where
  within : |(n : Rat) - x| ≤ 1 / 2
  even_of_tie : |(n : Rat) - x| = 1 / 2 → n % 2 = 0

theorem nearest_nearestInt (x : Rat) : Nearest (nearestInt x) x := by
  have below : (x.floor : Rat) ≤ x := Rat.floor_le x
  have above : x < x.floor + 1 := by exact_mod_cast Rat.lt_floor_add_one x
  unfold nearestInt
  dsimp only
  split_ifs with low high even
  · refine ⟨?_, fun tie => ?_⟩
    · rw [abs_le]
      constructor <;> linarith
    · rw [abs_of_nonpos (by linarith)] at tie
      linarith
  · refine ⟨?_, fun tie => ?_⟩
    · push_cast
      rw [abs_le]
      constructor <;> linarith
    · push_cast at tie
      rw [abs_of_nonneg (by linarith)] at tie
      linarith
  · refine ⟨?_, fun _ => even⟩
    rw [abs_le]
    constructor <;> linarith
  · refine ⟨?_, fun _ => by omega⟩
    push_cast
    rw [abs_le]
    constructor <;> linarith

/-- Rounding goes up by half a unit at most. -/
theorem nearestInt_le_add_half (x : Rat) : (nearestInt x : Rat) ≤ x + 1 / 2 := by
  have := (abs_le.1 (nearest_nearestInt x).within).2
  linarith

/-- **Rounding reaches an even integer from half a unit below it on**, also at the tie. -/
theorem le_nearestInt_iff {n : Int} (even : n % 2 = 0) (x : Rat) :
    n ≤ nearestInt x ↔ (n : Rat) - 1 / 2 ≤ x := by
  constructor
  · intro le
    have le' : (n : Rat) ≤ nearestInt x := by exact_mod_cast le
    have := nearestInt_le_add_half x
    linarith
  · intro near
    by_contra less
    have next : nearestInt x + 1 ≤ n := Int.not_le.1 less
    have next' : (nearestInt x : Rat) + 1 ≤ n := by exact_mod_cast next
    have low := (abs_le.1 (nearest_nearestInt x).within).1
    -- half a unit below `n` the odd number before it is no nearer
    have tie := (nearest_nearestInt x).even_of_tie (by
      rw [abs_of_nonpos (by linarith)]
      linarith)
    have upto : (n : Rat) ≤ nearestInt x + 1 := by linarith
    have upto' : n ≤ nearestInt x + 1 := by exact_mod_cast upto
    omega

namespace Encoding

/-! ## Limits -/

/-- Both limits of an encoding are even step counts. -/
def EvenLimits (e : Encoding Rat) : Prop := e.minSteps % 2 = 0 ∧ e.maxSteps % 2 = 0

instance (e : Encoding Rat) : Decidable e.EvenLimits := inferInstanceAs (Decidable (_ ∧ _))

theorem evenLimits_table : ∀ e ∈ (table : List (Encoding Rat)), e.EvenLimits := by
  decide +kernel

section Limits

variable {e : Encoding Rat}

/-- Where the range is no period, a magnitude has a word if its step count lies in it. -/
theorem encode?_isSome_iff (bounded : e.periodic = false) (v : Rat) :
    (e.encode? v).isSome = true ↔ e.Counts (nearestInt (v / e.step)) := by
  show ((e.admit? (nearestInt (v / e.step))).map e.layOut).isSome = true ↔ _
  rw [Option.isSome_map, admit?, if_neg (by simp [bounded]), Counts]
  split
  · rename_i outside
    simp only [Option.isSome_none, Bool.false_eq_true, false_iff]
    omega
  · rename_i inside
    simp only [Option.isSome_some, true_iff]
    omega

namespace Coherent

/-- Rounded step counts from an even one on, said of the magnitude. -/
theorem le_steps_iff (coherent : e.Coherent) {limit : Int} (even : limit % 2 = 0) (v : Rat) :
    limit ≤ nearestInt (v / e.step) ↔ limit * e.step - e.step / 2 ≤ v := by
  rw [le_nearestInt_iff even, le_div_iff₀ coherent.step_pos]
  ring_nf

/-- **The magnitudes with a word** are the range, moved down by half a step. -/
theorem accepted_iff (coherent : e.Coherent) (even : e.EvenLimits) (bounded : e.periodic = false)
    (v : Rat) : (e.encode? v).isSome = true ↔
      e.lower - e.step / 2 ≤ v ∧ v < e.upper - e.step / 2 := by
  rw [encode?_isSome_iff bounded, Counts, coherent.le_steps_iff even.1, ← not_le,
    coherent.le_steps_iff even.2, not_le, ← coherent.lower_eq, ← coherent.upper_eq]

/-- What is accepted below the lower limit is taken for the limit. -/
theorem encode?_of_lt_lower (coherent : e.Coherent) (even : e.EvenLimits) {v : Rat}
    (near : e.lower - e.step / 2 ≤ v) (below : v < e.lower) :
    e.encode? v = e.encode? e.lower := by
  have steps : nearestInt (v / e.step) = e.minSteps := by
    refine le_antisymm ?_ ((coherent.le_steps_iff even.1 v).2 (coherent.lower_eq ▸ near))
    have short : v / e.step < e.minSteps := by
      rwa [div_lt_iff₀ coherent.step_pos, ← coherent.lower_eq]
    have rounded := nearestInt_le_add_half (v / e.step)
    have lt : (nearestInt (v / e.step) : Rat) < e.minSteps + 1 := by linarith
    exact Int.lt_add_one_iff.1 (by exact_mod_cast lt)
  show e.encodeSteps? (nearestInt (v / e.step)) = e.encodeSteps? (nearestInt (e.lower / e.step))
  rw [steps]
  rfl

/-- The range is wider than half a step. -/
theorem lower_add_half_lt (coherent : e.Coherent) : e.lower + e.step / 2 < e.upper := by
  have step_pos := coherent.step_pos
  have apart : (e.minSteps : Rat) + 1 ≤ e.maxSteps := by exact_mod_cast coherent.nonempty
  calc e.lower + e.step / 2 < e.lower + e.step := by linarith
    _ = (e.minSteps + 1) * e.step := by rw [coherent.lower_eq]; ring
    _ ≤ e.maxSteps * e.step := mul_le_mul_of_nonneg_right apart step_pos.le
    _ = e.upper := coherent.upper_eq.symm

end Coherent

end Limits

/-! ## Reports -/

/-- A magnitude without a word is reported, and no other finite one. -/
theorem encodeQuantity_of_magnitude {d : Encoding Float} {q : Quantity} {magnitude : Float}
    (converted : d.magnitudeOf q = .ok magnitude) (finite : magnitude.isFinite = true) :
    d.encodeQuantity q = match d.encode? magnitude with
      | some word => .ok word
      | none => .error (.outOfRange d.name q.text d.lower d.upper) := by
  rw [encodeQuantity, converted]
  simp only [bind, Except.bind, finite]
  cases d.encode? magnitude <;> rfl

/-- **A magnitude has a word from half a step below the lower limit on, up to half a step below
the upper one.**  So the documented range from the lower limit up to the upper one is what
is accepted except for the two margins of half a step: a magnitude in the lower one is taken for
the limit, one in the upper one is refused.  What is refused is reported as out of range, and
nothing else that is finite. -/
theorem accepted_iff_of_mem_table {e : Encoding Rat} (known : e ∈ table)
    (bounded : e.periodic = false) (v : Rat) :
    ((e.encode? v).isSome = true ↔ e.lower - e.step / 2 ≤ v ∧ v < e.upper - e.step / 2) ∧
    (((e.encode? v).isSome = true ↔ e.lower ≤ v ∧ v < e.upper) ↔
      ¬(e.lower - e.step / 2 ≤ v ∧ v < e.lower) ∧ ¬(e.upper - e.step / 2 ≤ v ∧ v < e.upper)) ∧
    (e.lower - e.step / 2 ≤ v → v < e.lower → e.encode? v = e.encode? e.lower) ∧
    ∀ (d : Encoding Float) (q : Quantity) (magnitude : Float),
      d.magnitudeOf q = .ok magnitude → magnitude.isFinite = true →
      d.encodeQuantity q = match d.encode? magnitude with
        | some word => .ok word
        | none => .error (.outOfRange d.name q.text d.lower d.upper) := by
  have coherent := coherent_table e known
  have even := evenLimits_table e known
  have accepted := coherent.accepted_iff even bounded v
  refine ⟨accepted, ?_, coherent.encode?_of_lt_lower even,
    fun d q magnitude converted finite => encodeQuantity_of_magnitude converted finite⟩
  rw [accepted]
  have half : 0 < e.step / 2 := half_pos coherent.step_pos
  have wide := coherent.lower_add_half_lt
  grind

/-- The amplitude of a synthesizer, from 0 up to 1 in steps of `2^-14`. -/
def amplitude (α : Type) [Magnitude α] : Encoding α := unsigned "AD9910_AMPLITUDE" 14 "" 1.0

/-- A quarter of a step below zero; and twice the upper limit, as a double. -/
theorem accepted_iff_of_mem_table_amplitude :
    amplitude Rat ∈ table ∧ (amplitude Rat).periodic = false ∧
    ((amplitude Rat).encode? (-1 / 65536)).isSome = true ∧
    (amplitude Rat).encode? (-1 / 65536) = (amplitude Rat).encode? (amplitude Rat).lower ∧
    (amplitude Float).encodeQuantity (.plain 2.0) =
      .error (.outOfRange "AD9910_AMPLITUDE" (Quantity.plain 2.0).text (amplitude Float).lower
        (amplitude Float).upper) := by
  have known : amplitude Rat ∈ table := by simp [table, amplitude]
  have near : (amplitude Rat).lower - (amplitude Rat).step / 2 ≤ -1 / 65536 := by decide +kernel
  have below : -1 / 65536 < (amplitude Rat).lower := by decide +kernel
  have short : -1 / 65536 < (amplitude Rat).upper - (amplitude Rat).step / 2 := by decide +kernel
  have refused : (amplitude Float).encode? 2.0 = none := by decide +kernel
  obtain ⟨accepted, _, lowest, reported⟩ := accepted_iff_of_mem_table known rfl (-1 / 65536)
  have report := reported (amplitude Float) (.plain 2.0) 2.0 rfl rfl
  rw [refused] at report
  exact ⟨known, rfl, accepted.2 ⟨near, short⟩, lowest near below, report⟩

/-- The range is not kept: a magnitude below it has a word, and one inside has none. -/
theorem range_not_kept :
    amplitude Rat ∈ table ∧ (amplitude Rat).periodic = false ∧
    (amplitude Rat).lower = 0 ∧ (amplitude Rat).upper = 1 ∧
    (amplitude Rat).encode? (-1 / 65536) = some 0 ∧
    (amplitude Rat).encode? (65535 / 65536) = none := by
  refine ⟨by simp [table, amplitude], rfl, ?_, ?_, ?_, ?_⟩ <;> decide +kernel

end Encoding

end PulseSequencer
