import PulseSequencer.Proofs.Formula.Units
import PulseSequencer.Proofs.Ppp.Fields

/-
# PulseSequencer.Proofs.Ppp.Literals -- the declarations of folded values

A folded value is declared with its magnitude in digits and its unit in unit
characters.  The assembler reads both back as they were written, in whatever place the
declaration stands: `assembledWord_of_read`.
-/

namespace PulseSequencer

open PulseSequencer.Assembler
open PulseSequencer.Formula (nestingMarks)

set_option autoImplicit false

namespace Ppp

/-! ## Magnitudes and units -/

/-- A magnitude in digits and a unit in unit characters. -/
structure Written (magnitude unit : String) : Prop where
  numeral : Number.SignedNumeral magnitude.toList
  symbol : ∀ c ∈ unit.toList, isUnitChar c = true

theorem Written.number {magnitude unit : String} (written : Written magnitude unit) :
    ∀ c ∈ magnitude.toList, Number.isNumberChar c = true := written.numeral.isNumberChar

theorem isUnitChar_blankPoints : ∀ n ∈ blankPoints, isUnitChar (Char.ofNat n) = false := by
  decide +kernel

theorem isUnitChar_marks : nestingMarks.all (fun m => !isUnitChar m) = true := by decide

/-- What is stored of a value has a magnitude in digits. -/
theorem numeral_of_storable {v : Value} {magnitude unit : String}
    (stored : Setting.storable? v = some (magnitude, unit)) :
    Number.SignedNumeral magnitude.toList := by
  unfold Setting.storable? at stored
  split at stored
  · obtain ⟨rfl, _⟩ := Prod.mk.inj (Option.some.inj stored)
    exact Number.signedNumeral_of_int _
  · obtain ⟨rfl, _⟩ := Prod.mk.inj (Option.some.inj stored)
    exact Number.signedNumeral_of_int _
  · split at stored
    · rename_i finite
      obtain ⟨rfl, _⟩ := Prod.mk.inj (Option.some.inj stored)
      exact Number.signedNumeral_of_plain finite
    · cases stored
  · split at stored
    · rename_i finite
      obtain ⟨rfl, _⟩ := Prod.mk.inj (Option.some.inj stored)
      exact Number.signedNumeral_of_plain finite
    · cases stored
  · cases stored

theorem number_of_storable {v : Value} {magnitude unit : String}
    (stored : Setting.storable? v = some (magnitude, unit)) :
    ∀ c ∈ magnitude.toList, Number.isNumberChar c = true :=
  (numeral_of_storable stored).isNumberChar

/-- What is stored of a value is written in digits and unit characters. -/
theorem written_of_storable {v : Value} {magnitude unit : String} (spelled : v.Spelled)
    (stored : Setting.storable? v = some (magnitude, unit)) : Written magnitude unit := by
  refine ⟨numeral_of_storable stored, ?_⟩
  unfold Setting.storable? at stored
  split at stored
  · obtain ⟨_, rfl⟩ := Prod.mk.inj (Option.some.inj stored)
    exact fun c there => absurd there List.not_mem_nil
  · obtain ⟨_, rfl⟩ := Prod.mk.inj (Option.some.inj stored)
    exact fun c there => absurd there List.not_mem_nil
  · split at stored
    · obtain ⟨_, rfl⟩ := Prod.mk.inj (Option.some.inj stored)
      exact fun c there => absurd there List.not_mem_nil
    · cases stored
  · split at stored
    · obtain ⟨_, rfl⟩ := Prod.mk.inj (Option.some.inj stored)
      exact spelled
    · cases stored
  · cases stored

/-- Magnitude and unit can be told from the text of both. -/
theorem key_injective {magnitude unit other symbol : String}
    (number : ∀ c ∈ magnitude.toList, Number.isNumberChar c = true)
    (number' : ∀ c ∈ other.toList, Number.isNumberChar c = true)
    (same : magnitude ++ " " ++ unit = other ++ " " ++ symbol) :
    magnitude = other ∧ unit = symbol := by
  have chars := congrArg String.toList same
  simp only [String.toList_append] at chars
  have first := Text.splitFirst?_append (b := unit.toList)
    (fun c there => not_blank_of isUnitChar_blankPoints (isUnitChar_of_number (number c there)))
    (show Text.isBlank ' ' = true by decide)
  have second := Text.splitFirst?_append (b := symbol.toList)
    (fun c there => not_blank_of isUnitChar_blankPoints (isUnitChar_of_number (number' c there)))
    (show Text.isBlank ' ' = true by decide)
  have chars' : magnitude.toList ++ ' ' :: unit.toList = other.toList ++ ' ' :: symbol.toList := by
    simpa using chars
  rw [chars', second] at first
  obtain ⟨left, right⟩ := Prod.mk.inj (Option.some.inj first)
  exact ⟨String.toList_inj.1 left.symm, String.toList_inj.1 right.symm⟩

section Written

variable {magnitude unit : String} (written : Written magnitude unit)
include written

theorem Written.plain : ∀ c ∈ magnitude.toList, c ∉ nestingMarks :=
  fun c there => Formula.plain_of isUnitChar_marks (isUnitChar_of_number (written.number c there))

theorem Written.not_blank : ∀ c ∈ magnitude.toList, Text.isBlank c = false :=
  fun c there => not_blank_of isUnitChar_blankPoints (isUnitChar_of_number (written.number c there))

theorem Written.unit_solid : Solid unit.toList where
  plain c there := Formula.plain_of isUnitChar_marks (written.symbol c there)
  not_blank c there := not_blank_of isUnitChar_blankPoints (written.symbol c there)

/-! ## Their fields -/

theorem Written.legible : Legible magnitude ["", unit] where
  enclosed := enclosed_of_plain written.plain
  unsigned there := written.plain '#' there (by decide)
  trimmed := Text.trim_of_free written.not_blank
  words :=
    List.forall_mem_cons.2 ⟨⟨by simp, by simp⟩, List.forall_mem_singleton.2 written.unit_solid⟩

/-- **The fields of a folded value are those that were declared.** -/
theorem Written.fields (i : Nat) :
    fieldAt? (fields (seen (joinFields [magnitude, "", unit]).toList)) i =
      fieldAt? [magnitude.toList, [], unit.toList] i := written.legible.fieldAt? i

/-! ## Their words -/

omit written in
theorem number_not_starts : ∀ n < 0x80, Number.isNumberChar (Char.ofNat n) = true →
    Formula.startsName (Char.ofNat n) = false := by decide

omit written in
/-- No name starts with a digit, so a number has the same value everywhere. -/
theorem evaluate_of_number {text : String}
    (number : ∀ c ∈ text.toList, Number.isNumberChar c = true) {d : Draft} {v : Value}
    (evaluated : d.evaluate text = .ok v) (d' : Draft) : d'.evaluate text = .ok v := by
  unfold Draft.evaluate at evaluated ⊢
  cases outcome : Formula.parse text with
  | error e =>
      rw [Formula.Evaluator.evaluate, outcome] at evaluated
      cases evaluated
  | ok f =>
      have noName : ∀ c, Number.isNumberChar c = true → Formula.startsName c = false :=
        fun _ => Number.of_isNumberChar (p := (Formula.startsName · = false)) number_not_starts
      have nameless : ∀ name ∈ f.mentioned, d'.scope name = d.scope name := by
        intro name there
        obtain ⟨_, c, inText, starts⟩ :=
          Formula.of_mentioned f (Formula.madeOf_of_parse outcome) name there
        exact absurd ((noName c (number c inText)).symm.trans starts) Bool.false_ne_true
      rw [Formula.Evaluator.evaluate_congr Formula.Evaluator.default outcome nameless]
      exact evaluated

/-- **A folded value has its word wherever its declaration stands.** -/
theorem Written.assembledWord_of_read {d : Draft} {name : String} {comment : Option (List Char)}
    {v : Variable}
    (read : d.readVariable name (Assembler.fields (seen (joinFields [magnitude, "", unit]).toList))
      comment = .ok v) : assembledWord magnitude unit = some v.word := by
  unfold Draft.readVariable at read
  simp only [written.fields] at read
  obtain ⟨value, evaluated, read⟩ := bind_eq_ok.1 read
  obtain ⟨type, typed, read⟩ := bind_eq_ok.1 read
  obtain ⟨quantity, measured, read⟩ := bind_eq_ok.1 read
  obtain rfl := Except.ok.inj read
  have text : ∀ c ∈ ((fieldAt? [magnitude.toList, [], unit.toList] 0).getD "0").toList,
      Number.isNumberChar c = true := by
    cases chars : magnitude.toList with
    | nil =>
        intro c there
        have zero : ((fieldAt? [[], [], unit.toList] 0).getD "0").toList = ['0'] := by
          simp [fieldAt?]
        rw [zero] at there
        obtain rfl := List.mem_singleton.1 there
        rfl
    | cons c rest =>
        show ∀ d ∈ (String.ofList (c :: rest)).toList, _
        rw [String.toList_ofList, ← chars]
        exact written.number
  have alone : Draft.readVariable {} "" [magnitude.toList, [], unit.toList] none = .ok _ :=
    bind_eq_ok.2 ⟨value, evaluate_of_number text evaluated {}, bind_eq_ok.2 ⟨type, typed,
      bind_eq_ok.2 ⟨quantity, measured, rfl⟩⟩⟩
  rw [assembledWord, alone]
  rfl

end Written

end Ppp

end PulseSequencer
