import PulseSequencer.Number.Notation
import PulseSequencer.Number.Reader

/-
# PulseSequencer.Proofs.Number.Digits -- the texts of numbers

The text of an integer, and of a finite double written positionally, is digits with a
point among them or none, and a sign in front or none: `signedNumeral_of_int`,
`signedNumeral_of_plain`.

The decimal text of a natural number is read as that number (`readNat?_toDigits`), as a
word if it fits one (`readWord?_toDigits`), and that of an integer of 64 bits as that
integer (`readInt64?_toString`).
-/

namespace PulseSequencer.Number

set_option autoImplicit false

/-- The characters of numbers that are written without an exponent. -/
def isNumberChar (c : Char) : Bool := c.isDigit || c == '.' || c == '-'

theorem isNumberChar_of_isDigit {c : Char} (digit : c.isDigit = true) : isNumberChar c = true := by
  rw [isNumberChar, digit]
  rfl

theorem ascii_of_isNumberChar {c : Char} (number : isNumberChar c = true) : c.toNat < 0x80 := by
  simp only [isNumberChar, Char.isDigit, Bool.or_eq_true, Bool.and_eq_true, beq_iff_eq,
    decide_eq_true_eq] at number
  rcases number with (⟨_, upper⟩ | rfl) | rfl
  · have := UInt32.le_iff_toNat_le.1 upper
    simp at this
    omega
  · decide
  · decide

/-- What holds of the number characters one by one. -/
theorem of_isNumberChar {p : Char → Prop}
    (each : ∀ n < 0x80, isNumberChar (Char.ofNat n) = true → p (Char.ofNat n)) {c : Char}
    (number : isNumberChar c = true) : p c := by
  have here := each c.toNat (ascii_of_isNumberChar number)
  rw [Char.ofNat_toNat] at here
  exact here number

theorem isDigit_of_nat {n : Nat} {c : Char} (there : c ∈ (toString n).toList) :
    c.isDigit = true := by
  have digits : (toString n).toList = Nat.toDigits 10 n := Nat.toList_repr
  rw [digits] at there
  exact Nat.isDigit_of_mem_toDigits (by decide) (by decide) there

/-! ## Numerals -/

/-- Digits, and a point with more digits behind them. -/
inductive Numeral : List Char → Prop
  | whole {ds : List Char} (some' : ds ≠ []) (digits : ∀ c ∈ ds, c.isDigit = true) : Numeral ds
  | point {ds fs : List Char} (some' : ds ≠ []) (digits : ∀ c ∈ ds, c.isDigit = true)
      (behind : ∀ c ∈ fs, c.isDigit = true) : Numeral (ds ++ '.' :: fs)

/-- A numeral, with or without a minus sign. -/
inductive SignedNumeral : List Char → Prop
  | plus {cs : List Char} (numeral : Numeral cs) : SignedNumeral cs
  | minus {cs : List Char} (numeral : Numeral cs) : SignedNumeral ('-' :: cs)

theorem Numeral.isNumberChar {cs : List Char} (numeral : Numeral cs) :
    ∀ c ∈ cs, isNumberChar c = true := by
  intro c there
  cases numeral with
  | whole _ digits => exact isNumberChar_of_isDigit (digits c there)
  | point _ digits behind =>
      rcases List.mem_append.1 there with before | there
      · exact isNumberChar_of_isDigit (digits c before)
      rcases List.mem_cons.1 there with rfl | after
      · rfl
      · exact isNumberChar_of_isDigit (behind c after)

theorem SignedNumeral.isNumberChar {cs : List Char} (numeral : SignedNumeral cs) :
    ∀ c ∈ cs, isNumberChar c = true := by
  cases numeral with
  | plus numeral => exact numeral.isNumberChar
  | minus numeral => exact List.forall_mem_cons.2 ⟨rfl, numeral.isNumberChar⟩

theorem SignedNumeral.ne_nil {cs : List Char} (numeral : SignedNumeral cs) : cs ≠ [] := by
  cases numeral with
  | plus numeral =>
      cases numeral with
      | whole some' _ => exact some'
      | point _ _ _ => simp
  | minus _ => exact List.cons_ne_nil _ _

theorem numeral_of_nat (n : Nat) : Numeral (Nat.toDigits 10 n) :=
  .whole Nat.toDigits_ne_nil fun _ there => Nat.isDigit_of_mem_toDigits (by decide) (by decide) there

theorem toList_ofNat (n : Nat) : (toString (Int.ofNat n)).toList = Nat.toDigits 10 n :=
  Nat.toList_repr

theorem toList_negSucc (n : Nat) :
    (toString (Int.negSucc n)).toList = '-' :: Nat.toDigits 10 (n + 1) := by
  show ("-" ++ toString (n + 1)).toList = _
  rw [String.toList_append]
  exact congrArg ('-' :: ·) Nat.toList_repr

/-- **An integer is written as a numeral.** -/
theorem signedNumeral_of_int (n : Int) : SignedNumeral (toString n).toList := by
  cases n with
  | ofNat n =>
      rw [toList_ofNat]
      exact .plus (numeral_of_nat n)
  | negSucc n =>
      rw [toList_negSucc]
      exact .minus (numeral_of_nat _)

theorem isDigit_of_zeros {n : Nat} {c : Char} (there : c ∈ zeros n) : c.isDigit = true := by
  rw [List.eq_of_mem_replicate there]
  rfl

/-- A decimal number is written as a numeral. -/
theorem numeral_of_positional (d : Decimal) : Numeral d.positional := by
  have digits : ∀ c ∈ Nat.toDigits 10 d.digits, c.isDigit = true := fun _ there =>
    Nat.isDigit_of_mem_toDigits (by decide) (by decide) there
  have some' : Nat.toDigits 10 d.digits ≠ [] := Nat.toDigits_ne_nil
  unfold Decimal.positional
  dsimp only
  split
  · exact .whole (fun none' => some' (List.append_eq_nil_iff.1 none').1)
      (List.forall_mem_append.2 ⟨digits, fun _ => isDigit_of_zeros⟩)
  · split
    · rename_i places inside
      refine .point (fun none' => ?_) (fun c there => digits c (List.mem_of_mem_take there))
        fun c there => digits c (List.mem_of_mem_drop there)
      rcases List.take_eq_nil_iff.1 none' with zero | none'
      · omega
      · exact some' none'
    · exact .point (List.cons_ne_nil '0' []) (List.forall_mem_singleton.2 rfl)
        (List.forall_mem_append.2 ⟨fun _ => isDigit_of_zeros, digits⟩)

theorem signedNumeral_of_signed {negative : Bool} {text : List Char} (numeral : Numeral text) :
    SignedNumeral (signed negative text).toList := by
  unfold signed
  rw [String.toList_ofList]
  split
  · exact .minus numeral
  · exact .plus numeral

/-! ## Doubles -/

section Finite

open Float.Model

/-- The exponent bits of a finite double are not all set. -/
theorem exponent_of_isFinite {x : Float} (finite : x.isFinite = true) :
    ((x.toBits >>> 52) &&& 0x7FF).toNat ≠ 0x7FF := by
  intro full
  have ones : @UnpackedFloat.unpackExponent Format.binary64 x.toBits.toBitVec = -1#11 := by
    apply BitVec.eq_of_toNat_eq
    simp only [UnpackedFloat.unpackExponent, BitVec.extractLsb, BitVec.toNat_cast,
      BitVec.extractLsb'_toNat]
    rw [UInt64.toNat_and, UInt64.toNat_shiftRight,
      show (0x7FF : UInt64).toNat = 2 ^ 11 - 1 from rfl, Nat.and_two_pow_sub_one_eq_mod] at full
    exact full
  have unpacked :
      x.isFinite = (UnpackedFloat.unpack Format.binary64 x.toBits.toBitVec).isFinite := rfl
  rw [unpacked] at finite
  delta UnpackedFloat.unpack at finite
  dsimp only at finite
  rw [if_pos ones] at finite
  split at finite <;> cases finite

end Finite

theorem finite_of_isFinite {x : Float} (finite : x.isFinite = true) :
    ∃ negative mantissa exponent, Binary.ofFloat x = .finite negative mantissa exponent := by
  unfold Binary.ofFloat Binary.ofBits
  dsimp only
  rw [if_neg (exponent_of_isFinite finite)]
  split
  · exact ⟨_, _, _, rfl⟩
  · exact ⟨_, _, _, rfl⟩

/-- **A finite double is written as a numeral.** -/
theorem signedNumeral_of_plain {x : Float} (finite : x.isFinite = true) :
    SignedNumeral (plain x).toList := by
  obtain ⟨negative, mantissa, exponent, parts⟩ := finite_of_isFinite finite
  rw [plain, parts]
  cases mantissa with
  | zero =>
      exact signedNumeral_of_signed (.whole (List.cons_ne_nil _ _) (List.forall_mem_singleton.2 rfl))
  | succ mantissa => exact signedNumeral_of_signed (numeral_of_positional _)

/-! ## Integers that are read back -/

theorem readNat?_toDigits (n : Nat) : readNat? (Nat.toDigits 10 n) = some n := by
  have digits : (Nat.toDigits 10 n).all Char.isDigit = true := List.all_eq_true.2 fun _ there =>
    Nat.isDigit_of_mem_toDigits (by decide) (by decide) there
  rw [readNat?, if_pos ⟨Nat.toDigits_ne_nil, digits⟩]
  exact congrArg some (Nat.ofDigitChars_toDigits (by decide) (by decide))

/-- The first digit of a number is no sign. -/
theorem exists_digit (n : Nat) :
    ∃ c rest, Nat.toDigits 10 n = c :: rest ∧ c.isDigit = true := by
  obtain ⟨c, rest, shape⟩ := List.exists_cons_of_ne_nil (Nat.toDigits_ne_nil (n := n) (b := 10))
  refine ⟨c, rest, shape, Nat.isDigit_of_mem_toDigits (b := 10) (n := n) (by decide) (by decide) ?_⟩
  rw [shape]
  exact List.mem_cons_self ..

theorem toDigits_ne_sign {n : Nat} {sign : Char} (noDigit : sign.isDigit = false)
    (rest : List Char) : Nat.toDigits 10 n ≠ sign :: rest := by
  intro same
  obtain ⟨c, _, shape, digit⟩ := exists_digit n
  obtain ⟨rfl, _⟩ := List.cons.inj (shape.symm.trans same)
  exact Bool.false_ne_true (noDigit.symm.trans digit)

/-- **A number that fits a word is read back as that word.** -/
theorem readWord?_toDigits {bits n : Nat} (fits : n < pow2 bits) :
    readWord? bits (Nat.toDigits 10 n) = some n := by
  have unsigned : ∀ rest, Nat.toDigits 10 n ≠ '+' :: rest := toDigits_ne_sign rfl
  rw [readWord?, readNat?_toDigits]
  · exact if_pos fits
  · exact unsigned

theorem readInt?_toString (n : Int) : readInt? (toString n).toList = some n := by
  cases n with
  | ofNat n =>
      have unsigned : splitSign (Nat.toDigits 10 n) = (false, Nat.toDigits 10 n) := by
        rw [splitSign]
        · exact toDigits_ne_sign rfl
        · exact toDigits_ne_sign rfl
      rw [toList_ofNat, readInt?, unsigned]
      exact congrArg (Option.map Int.ofNat) (readNat?_toDigits n)
  | negSucc n =>
      rw [toList_negSucc, readInt?, splitSign]
      exact congrArg (Option.map fun n => -Int.ofNat n) (readNat?_toDigits (n + 1))

theorem isDigit_of_readNat? {cs : List Char} {n : Nat} (read : readNat? cs = some n) :
    ∀ c ∈ cs, c.isDigit = true := by
  rw [readNat?] at read
  split at read
  · rename_i digits
    exact List.all_eq_true.1 digits.2
  · cases read

/-- Only a sign is split off. -/
theorem mem_splitSign {cs : List Char} {c : Char} (there : c ∈ cs) (noSign : c ≠ '-' ∧ c ≠ '+') :
    c ∈ (splitSign cs).2 := by
  unfold splitSign
  split
  · exact (List.mem_cons.1 there).resolve_left noSign.1
  · exact (List.mem_cons.1 there).resolve_left noSign.2
  · exact there

/-- Nothing but digits and a sign is read as an integer. -/
theorem not_mem_of_readInt64? {cs : List Char} {n : Int} (read : readInt64? cs = some n)
    {mark : Char} (noDigit : mark.isDigit = false) (noSign : mark ≠ '-' ∧ mark ≠ '+') :
    mark ∉ cs := by
  intro there
  have inDigits := mem_splitSign there noSign
  have among : ∀ {ds : List Char} {f : Nat → Int} {m : Int}, (readNat? ds).map f = some m →
      mark ∉ ds := by
    intro ds f m found inside
    obtain ⟨_, natural, _⟩ := Option.map_eq_some_iff.1 found
    exact Bool.false_ne_true (noDigit.symm.trans (isDigit_of_readNat? natural mark inside))
  rw [readInt64?] at read
  split at read
  · rename_i m integer
    rw [readInt?] at integer
    rcases signed : splitSign cs with ⟨_ | _, digits⟩ <;> rw [signed] at integer inDigits <;>
      exact among integer inDigits
  · cases read
/-- **An integer of 64 bits is read back.** -/
theorem readInt64?_toString {n : Int} (low : -pow2 63 ≤ n) (high : n < pow2 63) :
    readInt64? (toString n).toList = some n := by
  rw [readInt64?, readInt?_toString]
  exact if_pos ⟨low, high⟩

end PulseSequencer.Number
