import PulseSequencer.Formula.Evaluator
import PulseSequencer.Proofs.Except
import PulseSequencer.Proofs.Number.Digits

/-
# PulseSequencer.Proofs.Formula.Numerals -- written numbers are formulas

A numeral is one token, and a signed numeral one number or a sign in front of one, so
both have a value whatever the names stand for: `evaluate_numeral`.
-/

namespace PulseSequencer.Formula

open PulseSequencer.Number (Numeral SignedNumeral)

set_option autoImplicit false

/-! ## Tokens -/

section Tokens

variable {c : Char} {rest cs : List Char}

theorem digitsThenRest_append (digits : ∀ d ∈ cs, d.isDigit = true) (more : List Char)
    (stops : ∀ d, more.head? = some d → d.isDigit = false) :
    Number.digitsThenRest (cs ++ more) = (cs, more) := by
  have none' : more.takeWhile Char.isDigit = [] := by
    cases more with
    | nil => rfl
    | cons d others => rw [List.takeWhile_cons_of_neg (by simp [stops d rfl])]
  have all : more.dropWhile Char.isDigit = more := by
    cases more with
    | nil => rfl
    | cons d others => rw [List.dropWhile_cons_of_neg (by simp [stops d rfl])]
  rw [Number.digitsThenRest, List.takeWhile_append_of_pos digits, List.dropWhile_append_of_pos digits,
    none', all, List.append_nil]

/-- Digits end where no number goes on. -/
theorem decimalExtent_append {pointSeen : Bool} (digits : ∀ d ∈ cs, d.isDigit = true)
    {more : List Char} (stops : decimalExtent pointSeen more = (0, pointSeen)) :
    decimalExtent pointSeen (cs ++ more) = (cs.length, pointSeen) := by
  induction cs with
  | nil => exact stops
  | cons d others ih =>
      obtain ⟨digit, behind⟩ := List.forall_mem_cons.1 digits
      rw [List.cons_append, decimalExtent, digit, Bool.true_or, if_pos rfl, ih behind]
      rfl

theorem decimalExtent_digits {pointSeen : Bool} (digits : ∀ d ∈ cs, d.isDigit = true) :
    decimalExtent pointSeen cs = (cs.length, pointSeen) := by
  have alone := decimalExtent_append digits (rfl : decimalExtent pointSeen [] = (0, pointSeen))
  rwa [List.append_nil] at alone

theorem decimalExtent_point {fs : List Char} (digits : ∀ d ∈ cs, d.isDigit = true)
    (behind : ∀ d ∈ fs, d.isDigit = true) :
    decimalExtent false (cs ++ '.' :: fs) = ((cs ++ '.' :: fs).length, true) := by
  induction cs with
  | nil =>
      rw [List.nil_append, decimalExtent, if_neg (by decide), if_pos ⟨rfl, rfl⟩,
        decimalExtent_digits behind]
      rfl
  | cons d others ih =>
      obtain ⟨digit, more⟩ := List.forall_mem_cons.1 digits
      rw [List.cons_append, decimalExtent, digit, Bool.true_or, if_pos rfl, ih more]
      rfl

/-- A numeral is a number from its first character to its last one. -/
theorem decimalExtent_numeral (numeral : Numeral cs) :
    ∃ isReal, decimalExtent false cs = (cs.length, isReal) := by
  cases numeral with
  | whole _ digits => exact ⟨false, decimalExtent_digits digits⟩
  | point _ digits behind => exact ⟨true, decimalExtent_point digits behind⟩

/-- The first character of a numeral is a digit. -/
theorem digit_of_numeral (numeral : Numeral cs) :
    ∃ c rest, cs = c :: rest ∧ c.isDigit = true := by
  cases numeral with
  | whole some' digits =>
      obtain ⟨c, rest, rfl⟩ := List.exists_cons_of_ne_nil some'
      exact ⟨c, rest, rfl, digits c (List.mem_cons_self ..)⟩
  | point some' digits behind =>
      obtain ⟨c, rest, rfl⟩ := List.exists_cons_of_ne_nil some'
      exact ⟨c, _, rfl, digits c (List.mem_cons_self ..)⟩

theorem ne_of_isDigit {d : Char} (digit : c.isDigit = true) (other : d.isDigit = false) : c ≠ d := by
  rintro rfl
  exact Bool.false_ne_true (other.symm.trans digit)

theorem toLower_of_isDigit (digit : c.isDigit = true) : c.toLower = c := by
  refine dif_neg ?_
  simp only [Char.isDigit, Bool.and_eq_true, decide_eq_true_eq] at digit
  intro upper
  have low := UInt32.le_iff_toNat_le.1 digit.2
  have high := UInt32.le_iff_toNat_le.1 upper.1
  simp at low high
  omega

theorem readMagnitude?_numeral (numeral : Numeral cs) : ∃ x, Number.readMagnitude? cs = some x := by
  rw [Number.readMagnitude?]
  cases numeral with
  | whole some' digits =>
      have parts := digitsThenRest_append digits [] (fun _ none' => by cases none')
      rw [List.append_nil] at parts
      rw [parts]
      dsimp only
      rw [if_neg fun none' => some' none'.1]
      exact ⟨_, rfl⟩
  | @point ds fs some' digits behind =>
      have parts := digitsThenRest_append digits ('.' :: fs) (fun _ mark => by
        rw [← Option.some.inj mark]
        rfl)
      have parts' := digitsThenRest_append behind [] (fun _ none' => by cases none')
      rw [List.append_nil] at parts'
      simp only [parts, parts', some', false_and, if_false]
      exact ⟨_, rfl⟩

/-- A numeral is read as a double. -/
theorem readFloat?_numeral (numeral : Numeral cs) : ∃ x, Number.readFloat? cs = some x := by
  obtain ⟨x, magnitude⟩ := readMagnitude?_numeral numeral
  obtain ⟨c, rest, rfl, digit⟩ := digit_of_numeral numeral
  have unsigned : Number.splitSign (c :: rest) = (false, c :: rest) := by
    rw [Number.splitSign]
    · rintro _ same
      obtain ⟨rfl, _⟩ := List.cons.inj same
      cases digit
    · rintro _ same
      obtain ⟨rfl, _⟩ := List.cons.inj same
      cases digit
  have noWord : ∀ (word : String) (letter : Char), word.toList.head? = some letter →
      letter.isDigit = false → String.ofList ((c :: rest).map Char.toLower) ≠ word := by
    rintro word letter starts other rfl
    rw [String.toList_ofList, List.map_cons, toLower_of_isDigit digit] at starts
    exact ne_of_isDigit digit other (Option.some.inj starts)
  rw [Number.readFloat?, unsigned]
  dsimp only
  split
  · rename_i word
    exact absurd word (noWord _ 'i' rfl rfl)
  · rename_i word
    exact absurd word (noWord _ 'i' rfl rfl)
  · rename_i word
    exact absurd word (noWord _ 'n' rfl rfl)
  · rw [magnitude]
    exact ⟨_, rfl⟩

/-- The token of a number, and its value. -/
inductive Token.StandsFor : Token → Value → Prop
  | int (n : Int) : StandsFor (.int n) (.int n)
  | float (x : Float) : StandsFor (.float x) (.float x)

/-- The token that is made of a numeral. -/
def Numbers (cs : List Char) (token : Token) : Prop :=
  ∃ isReal, decimalExtent false cs = (cs.length, isReal) ∧ decimalToken cs isReal = .ok token

/-- Digits of an integer of 64 bits make this integer. -/
theorem numbers_of_digits (digits : ∀ d ∈ cs, d.isDigit = true) {n : Int}
    (read : Number.readInt64? cs = some n) : Numbers cs (.int n) :=
  ⟨false, decimalExtent_digits digits, by rw [decimalToken, if_neg Bool.false_ne_true, read]⟩

theorem numbers_of_numeral (numeral : Numeral cs) :
    ∃ token v, Token.StandsFor token v ∧ Numbers cs token := by
  obtain ⟨isReal, extent⟩ := decimalExtent_numeral numeral
  obtain ⟨x, read⟩ := readFloat?_numeral numeral
  have float : floatToken cs = .ok (.float x) := by rw [floatToken, read]
  have made : ∃ token v, Token.StandsFor token v ∧ decimalToken cs isReal = .ok token := by
    rw [decimalToken]
    split
    · exact ⟨_, _, .float x, float⟩
    · split
      · exact ⟨_, _, .int _, rfl⟩
      · exact ⟨_, _, .float x, float⟩
  obtain ⟨token, v, stands, made⟩ := made
  exact ⟨token, v, stands, isReal, extent, made⟩

section Numbers

variable {token : Token} (numeral : Numeral cs) (numbers : Numbers cs token)
include numeral numbers

theorem decimal_numeral : numberLexeme.decimal cs = .ok (token, cs.length - 1) := by
  obtain ⟨isReal, extent, made⟩ := numbers
  have plain : withoutUnderscores cs = cs :=
    List.filter_eq_self.2 fun d there => decide_eq_true (by
      rintro rfl
      exact absurd (numeral.isNumberChar _ there) (by decide))
  rw [numberLexeme.decimal, extent]
  dsimp only
  rw [List.take_length, plain, made]
  rfl

omit numeral numbers in
theorem numberLexeme_numeral (numeral : Numeral (c :: rest)) (numbers : Numbers (c :: rest) token) :
    numberLexeme c rest = .ok (token, rest.length) := by
  have made := decimal_numeral numeral numbers
  unfold numberLexeme
  split
  · rename_i x tail
    have number := numeral.isNumberChar x (by simp)
    rw [if_neg]
    · exact made
    · rintro (rfl | rfl) <;> exact absurd number (by decide)
  · exact made

/-- A numeral is one token. -/
theorem tokens_of_numeral (offset : Nat) :
    ∃ last, tokensFrom offset cs = .ok [⟨token, offset⟩, ⟨.finish, last⟩] := by
  obtain ⟨c, rest, rfl, digit⟩ := digit_of_numeral numeral
  have made := numberLexeme_numeral numeral numbers
  have solid : isSpace c = false := by
    have number := Number.isNumberChar_of_isDigit digit
    cases space : isSpace c with
    | false => rfl
    | true =>
        simp only [isSpace, Bool.or_eq_true, beq_iff_eq] at space
        rcases space with (((rfl | rfl) | rfl) | rfl) | rfl <;> cases digit
  have here : lexeme c rest = .ok (token, rest.length) := by
    rw [lexeme, startsNumber, digit, Bool.true_or, if_pos rfl, made]
  refine ⟨offset + c.utf8Size + Text.byteLength (rest.take rest.length), ?_⟩
  rw [tokensFrom, solid, if_neg Bool.false_ne_true, here]
  dsimp only
  rw [List.drop_length, tokensFrom]
  rfl

/-- Behind a minus sign a numeral is one token more. -/
theorem tokens_of_minus : ∃ last,
    tokensFrom 0 ('-' :: cs) = .ok [⟨.symbol .minus, 0⟩, ⟨token, 1⟩, ⟨.finish, last⟩] := by
  obtain ⟨last, made⟩ := tokens_of_numeral numeral numbers 1
  refine ⟨last, ?_⟩
  obtain ⟨c, rest, rfl, digit⟩ := digit_of_numeral numeral
  have sign : lexeme '-' (c :: rest) = .ok (.symbol .minus, 0) := by
    rfl
  rw [tokensFrom, if_neg (by decide), sign]
  dsimp only
  rw [List.drop_zero, List.take_zero]
  show (do let more ← tokensFrom 1 (c :: rest); _) = _
  rw [made]
  rfl

end Numbers

end Tokens

/-! ## Values -/

/-- A value that is a number without a unit. -/
def IsPlainNumber (v : Value) : Prop := (∃ n, v = .int n) ∨ ∃ x, v = .float x

theorem Token.StandsFor.isPlainNumber {token : Token} {v : Value} (stands : token.StandsFor v) :
    IsPlainNumber v := by
  cases stands with
  | int n => exact .inl ⟨n, rfl⟩
  | float x => exact .inr ⟨x, rfl⟩

theorem applyUnary_neg {v : Value} (plain : IsPlainNumber v) :
    ∃ w, applyUnary .neg v = .ok w ∧ IsPlainNumber w := by
  rcases plain with ⟨n, rfl⟩ | ⟨x, rfl⟩
  · rw [applyUnary]
    split
    · exact ⟨_, rfl, .inl ⟨_, rfl⟩⟩
    · exact ⟨_, rfl, .inr ⟨_, rfl⟩⟩
  · exact ⟨_, rfl, .inr ⟨_, rfl⟩⟩

section Values

variable {token : Token} {v : Value} {text : String} {cs : List Char}

/-- The formula of a number token. -/
theorem run_numeric (stands : token.StandsFor v) (offset : Nat) (scope : Scope) :
    ∃ formula, Evaluator.default.run scope formula = .ok (v, []) ∧
      (∀ last, parseLevel 72 .disjunction [⟨token, offset⟩, ⟨.finish, last⟩] =
        .ok (formula, [⟨.finish, last⟩])) ∧
      ∀ last, parseLevel 96 .disjunction [⟨.symbol .minus, 0⟩, ⟨token, offset⟩, ⟨.finish, last⟩] =
        .ok (.unary 0 .neg formula, [⟨.finish, last⟩]) := by
  cases stands with
  | int n => exact ⟨.int offset n, rfl, fun _ => rfl, fun _ => rfl⟩
  | float x => exact ⟨.float offset x, rfl, fun _ => rfl, fun _ => rfl⟩

/-- A numeral has the value of its token. -/
theorem evaluate_of_numbers (is : text.toList = cs) (numeral : Numeral cs)
    (numbers : Numbers cs token) (stands : token.StandsFor v) (scope : Scope) :
    Evaluator.default.evaluate text scope = .ok ⟨v, []⟩ := by
  obtain ⟨last, tokens⟩ := tokens_of_numeral numeral numbers 0
  obtain ⟨formula, ran, alone, _⟩ := run_numeric stands 0 scope
  rw [← is] at tokens
  have parsed : parse text = .ok formula :=
    bind_eq_ok.2 ⟨_, tokens, bind_eq_ok.2 ⟨_, alone last, rfl⟩⟩
  exact bind_eq_ok.2 ⟨formula, parsed, bind_eq_ok.2 ⟨(v, []), ran, rfl⟩⟩

/-- Behind a minus sign a numeral has the negated value of its token. -/
theorem evaluate_of_minus (is : text.toList = '-' :: cs) (numeral : Numeral cs)
    (numbers : Numbers cs token) (stands : token.StandsFor v) {w : Value}
    (negated : applyUnary .neg v = .ok w) (scope : Scope) :
    Evaluator.default.evaluate text scope = .ok ⟨w, []⟩ := by
  obtain ⟨last, tokens⟩ := tokens_of_minus numeral numbers
  obtain ⟨formula, ran, _, behindSign⟩ := run_numeric stands 1 scope
  rw [← is] at tokens
  have parsed : parse text = .ok (.unary 0 .neg formula) :=
    bind_eq_ok.2 ⟨_, tokens, bind_eq_ok.2 ⟨_, behindSign last, rfl⟩⟩
  have ran' : Evaluator.default.run scope (.unary 0 .neg formula) = .ok (w, []) := by
    rw [Evaluator.run]
    exact bind_eq_ok.2 ⟨(v, []), ran, bind_eq_ok.2 ⟨w, negated, rfl⟩⟩
  exact bind_eq_ok.2 ⟨_, parsed, bind_eq_ok.2 ⟨(w, []), ran', rfl⟩⟩

end Values

/-- **A signed numeral is a formula with a value of its own**, a number without a unit. -/
theorem evaluate_numeral {text : String} (numeral : SignedNumeral text.toList) (scope : Scope) :
    ∃ evaluation, Evaluator.default.evaluate text scope = .ok evaluation ∧
      IsPlainNumber evaluation.value := by
  generalize is : text.toList = cs at numeral
  cases numeral with
  | plus numeral =>
      obtain ⟨token, v, stands, numbers⟩ := numbers_of_numeral numeral
      exact ⟨_, evaluate_of_numbers is numeral numbers stands scope, stands.isPlainNumber⟩
  | minus numeral =>
      obtain ⟨token, v, stands, numbers⟩ := numbers_of_numeral numeral
      obtain ⟨w, negated, plain⟩ := applyUnary_neg stands.isPlainNumber
      exact ⟨_, evaluate_of_minus is numeral numbers stands negated scope, plain⟩

/-- **A written integer of 64 bits is a formula with that value.**  The least one is not:
without its sign it is too large. -/
theorem evaluate_int {n : Int} (low : -pow2 63 < n) (high : n < pow2 63) (scope : Scope) :
    Evaluator.default.evaluate (toString n) scope = .ok ⟨.int n, []⟩ := by
  have digits : ∀ k : Nat, (k : Int) < pow2 63 → Numbers (Nat.toDigits 10 k) (.int k) := by
    intro k fits
    refine numbers_of_digits
      (fun d there => Nat.isDigit_of_mem_toDigits (by decide) (by decide) there) ?_
    rw [← Number.toList_ofNat]
    refine Number.readInt64?_toString ?_ fits
    show -(pow2 63 : Int) ≤ k
    omega
  cases n with
  | ofNat k =>
      exact evaluate_of_numbers (Number.toList_ofNat k) (Number.numeral_of_nat k) (digits k high)
        (.int k) scope
  | negSucc k =>
      have negated : applyUnary .neg (.int ((k + 1 : Nat) : Int)) = .ok (.int (Int.negSucc k)) := by
        have fits : fits64 (-((k + 1 : Nat) : Int)) = true := by
          rw [fits64, Bool.and_eq_true, decide_eq_true_eq, decide_eq_true_eq]
          omega
        rw [applyUnary, checked, if_pos fits]
        rfl
      exact evaluate_of_minus (Number.toList_negSucc k) (Number.numeral_of_nat _)
        (digits (k + 1) (by omega)) (.int _) negated scope

end PulseSequencer.Formula
