import PulseSequencer.Ppp.Lexer

/-
# PulseSequencer.Proofs.Ppp.Names -- what names are made of

Names hold letters, numbers and underscores of every script, and so none of the
characters that mean something in a line of assembly: `isNamePart_not_blank`.
-/

namespace PulseSequencer.Ppp

set_option autoImplicit false

/-- A text that the lexer would take for a single name. -/
structure IsName (cs : List Char) : Prop where
  some' : cs ≠ []
  parts : ∀ c ∈ cs, isNamePart c = true

instance (cs : List Char) : Decidable (IsName cs) :=
  decidable_of_iff (cs ≠ [] ∧ cs.all isNamePart = true)
    ⟨fun is => ⟨is.1, List.all_eq_true.1 is.2⟩, fun is => ⟨is.some', List.all_eq_true.2 is.parts⟩⟩

/-- The code points of the blanks, one by one. -/
def blankPoints : List Nat :=
  [0x9, 0xA, 0xB, 0xC, 0xD, 0x20, 0x85, 0xA0, 0x1680, 0x2000, 0x2001, 0x2002, 0x2003, 0x2004,
   0x2005, 0x2006, 0x2007, 0x2008, 0x2009, 0x200A, 0x2028, 0x2029, 0x202F, 0x205F, 0x3000]

theorem mem_blankPoints {c : Char} (blank : Text.isBlank c = true) : c.toNat ∈ blankPoints := by
  simp only [Text.isBlank, Text.blankRanges, Text.within, Bool.or_eq_true, Bool.and_eq_true,
    decide_eq_true_eq, Bool.or_false] at blank
  simp only [blankPoints, List.mem_cons, List.not_mem_nil, or_false]
  omega

set_option maxRecDepth 8000 in
theorem isNamePart_blankPoints : ∀ n ∈ blankPoints, isNamePart (Char.ofNat n) = false := by
  decide +kernel

/-- A kind of characters that no blank is of. -/
theorem not_blank_of {p : Char → Bool} {c : Char}
    (never : ∀ n ∈ blankPoints, p (Char.ofNat n) = false) (here : p c = true) :
    Text.isBlank c = false := by
  cases blank : Text.isBlank c with
  | false => rfl
  | true =>
      have none' := never _ (mem_blankPoints blank)
      rw [Char.ofNat_toNat, here] at none'
      exact absurd none'.symm Bool.false_ne_true

/-- No part of a name is a blank. -/
theorem isNamePart_not_blank {c : Char} (part : isNamePart c = true) :
    Text.isBlank c = false := not_blank_of isNamePart_blankPoints part

theorem isNamePart_of_isDigit {c : Char} (digit : c.isDigit = true) : isNamePart c = true := by
  have small : c.toNat < 0x80 := by
    simp only [Char.isDigit, Bool.and_eq_true, decide_eq_true_eq, UInt32.le_iff_toNat_le] at digit
    have top : c.toNat ≤ 57 := digit.2
    omega
  rw [isNamePart, Text.isAlphanumeric_of_isAlphanum small, Bool.true_or]
  rw [Char.isAlphanum, digit, Bool.or_true]

/-- A character that no name holds. -/
theorem ne_of_isNamePart {c d : Char} (part : isNamePart c = true)
    (never : isNamePart d = false) : c ≠ d := by
  rintro rfl
  exact Bool.false_ne_true (never.symm.trans part)

section IsName

variable {cs : List Char}

theorem IsName.not_blank (name : IsName cs) : ∀ c ∈ cs, Text.isBlank c = false :=
  fun c there => isNamePart_not_blank (name.parts c there)

theorem IsName.not_mem {d : Char} (name : IsName cs) (never : isNamePart d = false) : d ∉ cs :=
  fun there => ne_of_isNamePart (name.parts d there) never rfl

end IsName

end PulseSequencer.Ppp
