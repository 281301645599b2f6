import PulseSequencer.Encoding.Basic
import Mathlib.Algebra.Order.Field.Basic
import Mathlib.Data.Rat.Floor

/-
# PulseSequencer.Proofs.Encoding.Inverse -- step counts and their words

Read exactly, an encoding whose limits are whole step counts and whose word has room for
all counts between them (`Coherent`) writes every such count so that it is read back
(`Coherent.decodeSteps_layOut`), and admits no other (`Coherent.mem_of_admit?`).  All
encodings of the table are coherent, so encoding and decoding are inverse on it:
`inverse_of_mem_table`.
-/

namespace PulseSequencer

set_option autoImplicit false

theorem nearestInt_intCast (n : Int) : nearestInt n = n := by
  simp [nearestInt]

namespace Encoding

/-! ## Coherent encodings -/

/-- The step counts that an encoding has words for. -/
def Counts (e : Encoding Rat) (steps : Int) : Prop := e.minSteps ≤ steps ∧ steps < e.maxSteps

/-- Whether the words of an encoding are wide enough to tell its step counts apart. -/
def HasRoom (e : Encoding Rat) : Prop :=
  match e.representation with
  | .unsigned => 0 ≤ e.minSteps ∧ e.maxSteps ≤ pow2 e.maskBits
  | .twosComplement => -pow2 e.maskBits ≤ e.minSteps * 2 ∧ e.maxSteps * 2 ≤ pow2 e.maskBits
  | .offset => e.maxSteps - e.minSteps ≤ pow2 e.maskBits

/-- The limits of an encoding are whole step counts that fit its words. -/
structure Coherent (e : Encoding Rat) : Prop where
  step_pos : 0 < e.step
  lower_eq : e.lower = e.minSteps * e.step
  upper_eq : e.upper = e.maxSteps * e.step
  nonempty : e.minSteps < e.maxSteps
  width : e.maskBits ≤ 64
  room : e.HasRoom

instance (e : Encoding Rat) : Decidable e.HasRoom := by
  unfold HasRoom
  cases e.representation <;> infer_instance

instance (e : Encoding Rat) : Decidable e.Coherent :=
  decidable_of_iff (0 < e.step ∧ e.lower = e.minSteps * e.step ∧ e.upper = e.maxSteps * e.step ∧
      e.minSteps < e.maxSteps ∧ e.maskBits ≤ 64 ∧ e.HasRoom)
    ⟨fun ⟨step, lower, upper, nonempty, width, room⟩ => ⟨step, lower, upper, nonempty, width, room⟩,
      fun c => ⟨c.step_pos, c.lower_eq, c.upper_eq, c.nonempty, c.width, c.room⟩⟩

/-- **Every encoding of the table is coherent.** -/
theorem coherent_table : ∀ e ∈ (table : List (Encoding Rat)), e.Coherent := by
  decide +kernel

section Coherent

variable {e : Encoding Rat}

theorem Coherent.counts_iff (coherent : e.Coherent) {steps : Int} :
    e.Counts steps ↔ e.lower / e.step ≤ steps ∧ (steps : Rat) < e.upper / e.step := by
  have step_ne : e.step ≠ 0 := ne_of_gt coherent.step_pos
  rw [coherent.lower_eq, coherent.upper_eq, mul_div_cancel_right₀ _ step_ne,
    mul_div_cancel_right₀ _ step_ne, Int.cast_le, Int.cast_lt]
  rfl

/-! ## Words of step counts -/

/-- What is written of a step count. -/
def raw (e : Encoding Rat) (steps : Int) : Int :=
  match e.representation with
  | .offset => steps - e.minSteps
  | .unsigned | .twosComplement => steps

theorem toNat_mask_and (width : e.maskBits ≤ 64) (word : UInt64) :
    (word &&& UInt64.ofNat e.mask).toNat = word.toNat % pow2 e.maskBits := by
  have below : e.mask < 2 ^ 64 := by
    have := pow2_pos (min e.maskBits 64)
    have : pow2 (min e.maskBits 64) ≤ 2 ^ 64 := Nat.pow_le_pow_right (by decide) (by omega)
    rw [mask]
    omega
  rw [UInt64.toNat_and, UInt64.toNat_ofNat', Nat.mod_eq_of_lt below, mask, Nat.min_eq_left width]
  exact Nat.and_two_pow_sub_one_eq_mod _ _

/-- A word holds what is written, cut to its width. -/
theorem toNat_layOut (width : e.maskBits ≤ 64) (steps : Int) :
    ((e.layOut steps).toNat : Int) = e.raw steps % pow2 e.maskBits := by
  have cut : ((UInt64.ofInt (e.raw steps)).toNat : Int) = e.raw steps % 2 ^ 64 := by
    rw [UInt64.ofInt, UInt64.toNat_ofNat']
    omega
  have divides : (pow2 e.maskBits : Int) ∣ 2 ^ 64 := by
    exact_mod_cast Nat.pow_dvd_pow 2 width
  show ((UInt64.ofInt (e.raw steps) &&& UInt64.ofNat e.mask).toNat : Int) = _
  rw [toNat_mask_and width, Int.natCast_emod, cut, Int.emod_emod_of_dvd _ divides]

theorem layOut_lt (width : e.maskBits ≤ 64) (steps : Int) :
    (e.layOut steps).toNat < pow2 e.maskBits := by
  have bound := Int.emod_lt_of_pos (e.raw steps) (Int.natCast_pos.2 (pow2_pos e.maskBits))
  rw [← toNat_layOut width] at bound
  exact_mod_cast bound

/-- **A step count is read back from its word.** -/
theorem Coherent.decodeSteps_layOut (coherent : e.Coherent) {steps : Int}
    (counts : e.Counts steps) : e.decodeSteps (e.layOut steps) = steps := by
  obtain ⟨low, high⟩ := counts
  have masked : (Int.ofNat (e.layOut steps &&& UInt64.ofNat e.mask).toNat) =
      e.raw steps % pow2 e.maskBits := by
    rw [toNat_mask_and coherent.width, Nat.mod_eq_of_lt (layOut_lt coherent.width steps)]
    exact toNat_layOut coherent.width steps
  have room := coherent.room
  unfold HasRoom at room
  rw [decodeSteps, masked, Nat.min_eq_left coherent.width, raw]
  cases layout : e.representation with
  | unsigned =>
      rw [layout] at room
      dsimp only at room ⊢
      exact Int.emod_eq_of_lt (by omega) (by omega)
  | twosComplement =>
      rw [layout] at room
      dsimp only at room ⊢
      rw [Int.emod_bmod]
      exact Int.bmod_eq_of_le_mul_two (by omega) (by omega)
  | offset =>
      rw [layout] at room
      dsimp only at room ⊢
      rw [Int.emod_eq_of_lt (by omega) (by omega)]
      omega

/-- A count between the limits is admitted as it is, also where the range is a period. -/
theorem admit?_of_counts {steps : Int} (counts : e.Counts steps) :
    e.admit? steps = some steps := by
  obtain ⟨low, high⟩ := counts
  rw [admit?]
  split
  · rename_i periodic
    rw [Int.emod_eq_of_lt (periodic.2 ▸ low) high]
  · exact if_neg (by omega)

/-- **Only counts between the limits are admitted.** -/
theorem Coherent.mem_of_admit? (coherent : e.Coherent) {steps admitted : Int}
    (found : e.admit? steps = some admitted) : e.Counts admitted := by
  rw [admit?] at found
  split at found
  · rename_i periodic
    have nonempty := coherent.nonempty
    obtain rfl := Option.some.inj found
    rw [Counts, periodic.2]
    exact ⟨Int.emod_nonneg _ (by omega), Int.emod_lt_of_pos _ (by omega)⟩
  · split at found
    · cases found
    · obtain rfl := Option.some.inj found
      rw [Counts]
      omega

/-! ## Magnitudes -/

theorem decode_eq (e : Encoding Rat) (word : UInt64) :
    e.decode word = e.decodeSteps word * e.step := rfl

/-- A whole number of steps is rounded to itself. -/
theorem Coherent.encode?_steps (coherent : e.Coherent) {steps : Int} (counts : e.Counts steps) :
    e.encode? (steps * e.step) = some (e.layOut steps) := by
  have whole : (steps * e.step : Rat) / e.step = steps :=
    mul_div_cancel_right₀ _ (ne_of_gt coherent.step_pos)
  show e.encodeSteps? (nearestInt (steps * e.step / e.step)) = _
  rw [whole, nearestInt_intCast, encodeSteps?, admit?_of_counts counts]
  rfl

end Coherent

/-- **Encoding and decoding are inverse**: every whole number of steps between the limits
of an encoding has a word of its width that stands for it, and a word that anything is
encoded as is the word of the magnitude that it stands for. -/
theorem inverse_of_mem_table {e : Encoding Rat} (known : e ∈ table) :
    (∀ steps : Int, e.lower / e.step ≤ steps → (steps : Rat) < e.upper / e.step →
      ∃ word, e.encode? (steps * e.step) = some word ∧ word.toNat < pow2 e.maskBits ∧
        e.decode word = steps * e.step) ∧
      ∀ magnitude word, e.encode? magnitude = some word →
        e.encode? (e.decode word) = some word := by
  have coherent := coherent_table e known
  refine ⟨fun steps low high => ?_, fun magnitude word encoded => ?_⟩
  · have counts : e.Counts steps := coherent.counts_iff.2 ⟨low, high⟩
    refine ⟨e.layOut steps, coherent.encode?_steps counts, layOut_lt coherent.width steps, ?_⟩
    rw [decode_eq, coherent.decodeSteps_layOut counts]
  · obtain ⟨steps, admitted, rfl⟩ := Option.map_eq_some_iff.1 encoded
    have counts := coherent.mem_of_admit? admitted
    rw [decode_eq, coherent.decodeSteps_layOut counts]
    exact coherent.encode?_steps counts

/-- The signed frequency, whose words are wider than its range. -/
def signedFrequency : Encoding Rat :=
  { signed "AD9912_FRQ_SIGNED" 48 "Hz" 5e8 .twosComplement with maskBits := 64 }

/-- The lowest count of the signed frequency has a word of 64 bits. -/
theorem inverse_of_mem_table_signedFrequency :
    signedFrequency ∈ table ∧
      signedFrequency.lower / signedFrequency.step ≤ ((-2 ^ 47 : Int) : Rat) ∧
      ((-2 ^ 47 : Int) : Rat) < signedFrequency.upper / signedFrequency.step ∧
      (∃ word, signedFrequency.encode? (((-2 ^ 47 : Int) : Rat) * signedFrequency.step) = some word ∧
        word.toNat < pow2 64 ∧
        signedFrequency.decode word = ((-2 ^ 47 : Int) : Rat) * signedFrequency.step) ∧
      signedFrequency.encode? (-5e8) = some 0xFFFF800000000000 ∧
      signedFrequency.encode? (signedFrequency.decode 0xFFFF800000000000) =
        some 0xFFFF800000000000 := by
  have known : signedFrequency ∈ table := by simp [table, signedFrequency]
  have low : signedFrequency.lower / signedFrequency.step ≤ ((-2 ^ 47 : Int) : Rat) := by
    decide +kernel
  have high : ((-2 ^ 47 : Int) : Rat) < signedFrequency.upper / signedFrequency.step := by
    decide +kernel
  have encoded : signedFrequency.encode? (-5e8) = some 0xFFFF800000000000 := by decide +kernel
  obtain ⟨written, kept⟩ := inverse_of_mem_table known
  exact ⟨known, low, high, written _ low high, encoded, kept _ _ encoded⟩

end Encoding

end PulseSequencer
