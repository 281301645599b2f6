import PulseSequencer.Proofs.Except
import PulseSequencer.Proofs.Number.Digits
import PulseSequencer.Proofs.Text.Lines
import PulseSequencer.Units.Quantity

/-
# PulseSequencer.Proofs.Units.Symbols -- what the symbols of units are made of

A unit is written as it was read, without the blanks around it: `symbol_of_parse`.  The
symbols of products, quotients and powers are made of those of their factors.
-/

namespace PulseSequencer.PhysicalUnit

set_option autoImplicit false

theorem symbol_of_simple? {symbol : List Char} {unit : PhysicalUnit}
    (read : simple? symbol = some unit) : unit.symbol = String.ofList symbol := by
  unfold simple? at read
  split at read
  · rw [← Option.some.inj read]
  · obtain ⟨⟨head, factor⟩, _, found⟩ := List.exists_of_findSome?_eq_some read
    unfold prefixed? at found
    dsimp only at found
    split at found
    · cases found
    · obtain ⟨named, _, rfl⟩ := Option.map_eq_some_iff.1 found
      rfl

/-- **A unit keeps the symbol that it was read from.** -/
theorem symbol_of_parse {text : String} {unit : PhysicalUnit} (read : parse text = .ok unit) :
    unit.symbol = String.ofList (Text.trim text.toList) := by
  unfold parse at read
  dsimp only at read
  split at read
  · rename_i none'
    rw [← Except.ok.inj read, none']
    rfl
  · split at read
    · rename_i found
      rw [← Except.ok.inj read]
      exact symbol_of_simple? found
    · obtain ⟨_, _, result⟩ := bind_eq_ok.1 read
      rw [← Except.ok.inj result]

theorem mem_of_symbol {text : String} {unit : PhysicalUnit} (read : parse text = .ok unit)
    {c : Char} (there : c ∈ unit.symbol.toList) : c ∈ text.toList := by
  rw [symbol_of_parse read, String.toList_ofList] at there
  exact Text.mem_of_mem_trim there

/-! ## Products, quotients and powers -/

/-- The characters of a symbol satisfy a predicate. -/
def MadeOf (p : Char → Prop) (unit : PhysicalUnit) : Prop := ∀ c ∈ unit.symbol.toList, p c

section Arithmetic

variable {p : Char → Prop} {a b unit : PhysicalUnit}

theorem madeOf_dimensionless : MadeOf p dimensionless :=
  fun _ there => absurd there List.not_mem_nil

theorem mem_joinSymbols {x operator y : String} {c : Char}
    (there : c ∈ (joinSymbols x operator y).toList) :
    c ∈ x.toList ∨ c ∈ operator.toList ∨ c ∈ y.toList := by
  unfold joinSymbols at there
  split at there
  · exact .inr (.inr there)
  · split at there
    · exact .inl there
    · simpa [or_assoc] using there

theorem madeOf_mul (star : p '*') (left : a.MadeOf p) (right : b.MadeOf p)
    (made : a.mul b = .ok unit) : unit.MadeOf p := by
  obtain ⟨_, _, result⟩ := bind_eq_ok.1 made
  intro c there
  rw [← Except.ok.inj result] at there
  rcases mem_joinSymbols there with inLeft | operator | inRight
  · exact left c inLeft
  · rw [List.mem_singleton.1 operator]
    exact star
  · exact right c inRight

theorem madeOf_div (slash : p '/') (one : p '1') (left : a.MadeOf p) (right : b.MadeOf p)
    (made : a.div b = .ok unit) : unit.MadeOf p := by
  obtain ⟨_, _, result⟩ := bind_eq_ok.1 made
  intro c there
  rw [← Except.ok.inj result] at there
  dsimp only at there
  split at there
  · rw [String.toList_append, List.mem_append] at there
    rcases there with front | inRight
    · rcases List.mem_cons.1 front with rfl | behind
      · exact one
      · rw [List.mem_singleton.1 behind]
        exact slash
    · exact right c inRight
  · rcases mem_joinSymbols there with inLeft | operator | inRight
    · exact left c inLeft
    · rw [List.mem_singleton.1 operator]
      exact slash
    · exact right c inRight

theorem madeOf_pow (caret : p '^') (digits : ∀ c : Char, Number.isNumberChar c = true → p c)
    {n : Int} (base : a.MadeOf p) (made : a.pow n = .ok unit) : unit.MadeOf p := by
  obtain ⟨_, _, result⟩ := bind_eq_ok.1 made
  intro c there
  rw [← Except.ok.inj result] at there
  dsimp only at there
  split at there
  · exact base c there
  · rw [String.toList_append, String.toList_append, List.mem_append, List.mem_append] at there
    rcases there with (inBase | operator) | exponent
    · exact base c inBase
    · rw [List.mem_singleton.1 operator]
      exact caret
    · exact digits c ((Number.signedNumeral_of_int _).isNumberChar c exponent)

end Arithmetic

end PulseSequencer.PhysicalUnit
