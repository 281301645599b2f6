import PulseSequencer.Proofs.Formula.Rendering
import PulseSequencer.Proofs.Ppp.Names
import PulseSequencer.Proofs.Units.Factors

/-
# PulseSequencer.Proofs.Ppp.Lexemes -- one token in two lexers

The text of a formula is cut by the lexer of sources first and by that of formulas later.
They take the same tokens from it: `lexeme_of_formula`.  What has to be shown is that no
number and no mark of the source runs on into the token behind it, which neighbours in a
formula see to: `apart_of_tokens`.
-/

namespace PulseSequencer

set_option autoImplicit false

/-! ## Tokens of both lexers -/

namespace Formula

/-- The mark of a source that looks like a symbol. -/
def Symbol.mark : Symbol → Ppp.Mark
  | .doubleStar => .doubleStar
  | .equal => .equal
  | .notEqual => .notEqual
  | .lessEqual => .lessEqual
  | .greaterEqual => .greaterEqual
  | .plus => .plus
  | .minus => .minus
  | .star => .star
  | .slash => .slash
  | .percent => .percent
  | .caret => .caret
  | .less => .less
  | .greater => .greater
  | .openParen => .openParen
  | .closeParen => .closeParen
  | .openBracket => .openBracket
  | .closeBracket => .closeBracket
  | .openBrace => .openBrace
  | .closeBrace => .closeBrace
  | .comma => .comma
  | .colon => .colon

theorem Symbol.chars_mark (s : Symbol) : s.mark.chars = s.chars := by cases s <;> rfl

/-- What a token of a formula is in a source. -/
def Token.kind : Token → Ppp.TokenKind
  | .int _ | .float _ => .number
  | .text _ => .text
  | .name s => .name s
  | .symbol s => .mark s.mark
  | .finish => .eof

end Formula

namespace Ppp

open Formula (startsName)
open Text (takeWhile_append_stop)

/-- What stands behind a formula in a source: the end of the line, or a mark that a formula
does not run over. -/
def stops : List Char := ['\n', ',', ')', ':']

/-- A text that a formula does not run into. -/
def Stopped (tail : List Char) : Prop := ∀ d, tail.head? = some d → d ∈ stops

/-- A kind of which none of some characters is. -/
theorem eq_false_of_mem {p : Char → Bool} {cs : List Char} {c : Char}
    (never : cs.all (!p ·) = true) (there : c ∈ cs) : p c = false :=
  Bool.not_eq_true' _ ▸ List.all_eq_true.1 never c there

/-- The characters behind a token do not prolong it.  A closing bracket is the beginning
of no other mark. -/
def Apart (t : Formula.Token) (behind : List Char) : Prop :=
  match t with
  | .int _ | .float _ => decimalLength behind = 0
  | .symbol s => (Formula.Token.symbol s).turn = -1 ∨
      ∀ d, behind.head? = some d → d ≠ '=' ∧ d ≠ '<' ∧ d ≠ '>'
  | _ => True

/-! ## Numbers -/

section Numbers

variable {c : Char} {cs more tail : List Char}

theorem decimalLength_cons (here : (c.isDigit || c == '.' || c == '_') = true)
    (cs : List Char) : decimalLength (c :: cs) = decimalLength cs + 1 := by
  cases cs with
  | nil => simp only [decimalLength, here, if_true]
  | cons d rest => rw [decimalLength, if_pos here]

/-- The mark of an exponent takes the sign or digit behind it along. -/
theorem decimalLength_exponent {d : Char} (mark : c = 'e' ∨ c = 'E')
    (next : d.isDigit ∨ d = '-' ∨ d = '+') (cs : List Char) :
    decimalLength (c :: d :: cs) = decimalLength cs + 2 := by
  have letter : (c.isDigit || c == '.' || c == '_') = false := by
    rcases mark with rfl | rfl <;> rfl
  rw [decimalLength, letter, if_neg Bool.false_ne_true, if_pos ⟨mark, next⟩]

theorem decimalLength_digits
    (stops : decimalLength (cs.drop (cs.takeWhile Char.isDigit).length ++ tail) = 0) :
    decimalLength (cs ++ tail) = (cs.takeWhile Char.isDigit).length := by
  induction cs with
  | nil => exact stops
  | cons c rest ih =>
      rw [List.takeWhile_cons] at stops ⊢
      split
      · rename_i digit
        rw [if_pos digit] at stops
        rw [List.cons_append, decimalLength_cons (by rw [digit, Bool.true_or, Bool.true_or]),
          ih stops, List.length_cons]
      · rename_i noDigit
        rw [if_neg noDigit] at stops
        exact stops

theorem decimalLength_of_exponent {n : Nat} (mark : c = 'e' ∨ c = 'E')
    (found : Formula.exponentLength? (c :: cs) = some n)
    (stops : decimalLength ((c :: cs).drop n ++ tail) = 0) :
    decimalLength (c :: cs ++ tail) = n := by
  obtain ⟨sign, digits, rfl, signs, some', rfl⟩ := Formula.exponent_shape found
  have signed : ∀ d : Char, d = '-' ∨ d = '+' →
      decimalLength ((c :: d :: digits).drop (1 + 1 + (digits.takeWhile Char.isDigit).length) ++
        tail) = 0 → decimalLength (c :: d :: digits ++ tail) =
          1 + 1 + (digits.takeWhile Char.isDigit).length := by
    intro d sign stops
    rw [Nat.add_comm] at stops ⊢
    rw [List.cons_append, List.cons_append, decimalLength_exponent mark (.inr sign),
      decimalLength_digits stops]
  rcases signs with rfl | rfl | rfl
  · cases digits with
    | nil => exact absurd rfl some'
    | cons d rest =>
        -- the first digit is taken along with the mark
        have digit : d.isDigit = true := by
          refine eq_true_of_ne_false fun noDigit => some' ?_
          rw [List.takeWhile_cons, noDigit, if_neg Bool.false_ne_true]
        rw [List.takeWhile_cons, if_pos digit, List.length_nil, Nat.add_zero,
          List.length_cons, Nat.add_comm] at stops ⊢
        rw [List.nil_append, List.cons_append, List.cons_append,
          decimalLength_exponent mark (.inl digit), decimalLength_digits stops]
  · exact signed '+' (.inr rfl) stops
  · exact signed '-' (.inl rfl) stops

/-- **A decimal number ends in a source where it ends in a formula**, if nothing behind it
looks like one. -/
theorem decimalLength_of_extent (pointSeen : Bool) (cs : List Char)
    (stops : decimalLength (cs.drop (Formula.decimalExtent pointSeen cs).1 ++ tail) = 0) :
    decimalLength (cs ++ tail) = (Formula.decimalExtent pointSeen cs).1 := by
  induction cs generalizing pointSeen with
  | nil => exact stops
  | cons c rest ih =>
      rw [Formula.decimalExtent] at stops ⊢
      split at stops
      · rename_i digit
        rw [if_pos digit, List.cons_append, decimalLength_cons]
        · exact congrArg (· + 1) (ih _ stops)
        · rw [Bool.or_right_comm, digit, Bool.true_or]
      · rename_i noDigit
        rw [if_neg noDigit]
        split at stops
        · rename_i point
          rw [if_pos point, List.cons_append, decimalLength_cons]
          · exact congrArg (· + 1) (ih _ stops)
          · rw [point.1]
            rfl
        · rename_i noPoint
          rw [if_neg noPoint]
          split at stops
          · rename_i mark
            rw [if_pos mark]
            split at stops
            · rename_i n found
              exact decimalLength_of_exponent mark found stops
            · exact stops
          · rename_i noMark
            rw [if_neg noMark]
            exact stops

theorem decimalExtent_le (pointSeen : Bool) (cs : List Char) :
    (Formula.decimalExtent pointSeen cs).1 ≤ cs.length := by
  induction cs generalizing pointSeen with
  | nil => exact Nat.le_refl 0
  | cons c rest ih =>
      rw [Formula.decimalExtent]
      split
      · exact Nat.succ_le_succ (ih _)
      · split
        · exact Nat.succ_le_succ (ih _)
        · split
          · split
            · rename_i n found
              obtain ⟨sign, digits, rfl, -, -, rfl⟩ := Formula.exponent_shape found
              have run := (List.takeWhile_prefix (l := digits) Char.isDigit).length_le
              rw [List.length_cons, List.length_append]
              omega
            · exact Nat.zero_le _
          · exact Nat.zero_le _

/-- Something of a number is always taken. -/
theorem decimalExtent_pos (starts : Formula.startsNumber c cs = true) :
    0 < (Formula.decimalExtent false (c :: cs)).1 := by
  simp only [Formula.startsNumber, Bool.or_eq_true, Bool.and_eq_true, beq_iff_eq] at starts
  rw [Formula.decimalExtent]
  split
  · exact Nat.succ_pos _
  · rename_i noDigit
    rcases starts with digit | ⟨point, _⟩
    · rw [digit, Bool.true_or] at noDigit
      exact absurd rfl noDigit
    · rw [if_pos ⟨point, rfl⟩]
      exact Nat.succ_pos _

/-- A run of characters that stand in a formula stops in front of what ends the formula. -/
theorem takeWhile_stopped {p : Char → Bool} (stopped : Stopped tail)
    (never : stops.all (!p ·) = true) :
    (cs ++ tail).takeWhile p = cs.takeWhile p := by
  induction cs with
  | nil =>
      exact takeWhile_append_stop (fun _ there => absurd there List.not_mem_nil)
        fun d next => eq_false_of_mem never (stopped d next)
  | cons c rest ih =>
      rw [List.cons_append, List.takeWhile_cons, List.takeWhile_cons, ih]

/-- **A number of a formula is a number of the source.** -/
theorem numberLength_of_lexeme {t : Formula.Token} {n : Nat}
    (read : Formula.numberLexeme c cs = .ok (t, n)) (starts : Formula.startsNumber c cs = true)
    (apart : decimalLength (cs.drop n ++ tail) = 0) (stopped : Stopped tail) :
    numberLength (c :: (cs ++ tail)) - 1 = n ∧ n ≤ cs.length := by
  have decimal : Formula.numberLexeme.decimal (c :: cs) = .ok (t, n) →
      decimalLength (c :: (cs ++ tail)) - 1 = n ∧ n ≤ cs.length := by
    intro read
    have length :
        decimalLength ((c :: cs).drop (Formula.decimalExtent false (c :: cs)).1 ++ tail) = 0 →
          decimalLength (c :: cs ++ tail) = (Formula.decimalExtent false (c :: cs)).1 :=
      decimalLength_of_extent false (c :: cs)
    have bound := decimalExtent_le false (c :: cs)
    have some' := decimalExtent_pos starts
    unfold Formula.numberLexeme.decimal at read
    generalize Formula.decimalExtent false (c :: cs) = extent at length bound some' read
    obtain ⟨k, isReal⟩ := extent
    obtain ⟨token, _, result⟩ := bind_eq_ok.1 read
    obtain ⟨rfl, rfl⟩ := Prod.mk.inj (Except.ok.inj result)
    obtain ⟨k, rfl⟩ := Nat.exists_eq_add_one_of_ne_zero (Nat.ne_of_gt some')
    have whole := length apart
    rw [List.cons_append] at whole
    exact ⟨by rw [whole], Nat.le_of_succ_le_succ bound⟩
  unfold Formula.numberLexeme at read
  split at read
  · rename_i x rest
    split at read
    · rename_i mark
      have digits : (rest ++ tail).takeWhile (fun d => isHexDigit d || d == '_') =
          rest.takeWhile fun d => isHexDigit d || d == '_' :=
        takeWhile_stopped stopped (by decide)
      have hexadecimal : numberLength ('0' :: (x :: rest ++ tail)) =
          2 + (rest.takeWhile fun d => isHexDigit d || d == '_').length := by
        rw [← digits]
        rcases mark with rfl | rfl <;> rfl
      dsimp only at read
      split at read
      · obtain ⟨rfl, rfl⟩ := Prod.mk.inj (Except.ok.inj read)
        have run := (List.takeWhile_prefix (l := rest) fun d => isHexDigit d || d == '_').length_le
        rw [hexadecimal]
        refine ⟨?_, Nat.succ_le_succ run⟩
        rw [Nat.add_comm]
        rfl
      · cases read
    · rename_i other
      rw [numberLength]
      · exact decimal read
      · exact fun _ shape => other (.inl (List.cons.inj (List.cons.inj shape).2).1)
      · exact fun _ shape => other (.inr (List.cons.inj (List.cons.inj shape).2).1)
  · rename_i other
    -- behind a lone zero no mark of a hexadecimal number stands
    have alone : ∀ x rest, c :: (cs ++ tail) = '0' :: x :: rest → x ∈ stops := by
      intro x rest whole
      obtain ⟨zero, shape⟩ := List.cons.inj whole
      cases cs with
      | nil => exact stopped x (by rw [← List.nil_append tail, shape]; rfl)
      | cons d others => exact absurd rfl (other d others zero)
    rw [numberLength]
    · exact decimal read
    · exact fun rest shape => absurd (alone 'x' rest shape) (by decide)
    · exact fun rest shape => absurd (alone 'X' rest shape) (by decide)

end Numbers

/-! ## Marks -/

/-- The characters that make another mark of a mark. -/
def Mark.prolongers (m : Mark) : List Char :=
  Mark.all.filterMap fun n =>
    if m.chars.isPrefixOf n.chars then n.chars[m.chars.length]? else none

theorem Mark.mem_all (m : Mark) : m ∈ Mark.all := by cases m <;> decide

/-- No mark is the beginning of a later one. -/
theorem Mark.ordered : Mark.all.Pairwise fun n m => n.chars.isPrefixOf m.chars = false := by
  decide +kernel

section Marks

variable {m : Mark} {behind : List Char}

theorem mem_prolongers {n : Mark} {d : Char} {more : List Char}
    (longer : m.chars ++ d :: more = n.chars) : d ∈ m.prolongers := by
  refine List.mem_filterMap.2 ⟨n, Mark.mem_all n, ?_⟩
  rw [← longer, if_pos (List.isPrefixOf_iff_prefix.2 (List.prefix_append _ _)),
    List.getElem?_append_right (Nat.le_refl _), Nat.sub_self]
  rfl

/-- **The first mark that is found is the longest one.** -/
theorem find?_mark (ends : ∀ d, behind.head? = some d → d ∉ m.prolongers) :
    (Mark.all.find? fun n => n.chars.isPrefixOf (m.chars ++ behind)) = some m := by
  obtain ⟨before, after, shape⟩ := List.append_of_mem (Mark.mem_all m)
  have ordered := Mark.ordered
  rw [shape, List.pairwise_append] at ordered
  refine List.find?_eq_some_iff_append.2 ⟨List.isPrefixOf_iff_prefix.2 (List.prefix_append _ _),
    before, after, shape, fun n earlier => ?_⟩
  have noBeginning : ¬n.chars <+: m.chars := by
    rw [← List.isPrefixOf_iff_prefix, ordered.2.2 n earlier m (List.mem_cons_self ..)]
    exact Bool.false_ne_true
  rw [Bool.not_eq_true', ← Bool.not_eq_true, List.isPrefixOf_iff_prefix]
  intro starts
  rcases Nat.le_total n.chars.length m.chars.length with short | long
  · exact noBeginning (List.prefix_of_prefix_length_le starts (List.prefix_append _ behind) short)
  · obtain ⟨more, longer⟩ :=
      List.prefix_of_prefix_length_le (List.prefix_append m.chars behind) starts long
    cases more with
    | nil => exact noBeginning ⟨[], by rw [← longer, List.append_nil, List.append_nil]⟩
    | cons d rest =>
        rw [← longer, List.prefix_append_right_inj] at starts
        obtain ⟨tail, rfl⟩ := starts
        exact ends d rfl (mem_prolongers longer)

theorem markLexeme_of_chars {c : Char} {cs : List Char} (shape : m.chars = c :: cs)
    (ends : ∀ d, behind.head? = some d → d ∉ m.prolongers) :
    markLexeme c (cs ++ behind) = .ok (.mark m, cs.length) := by
  rw [markLexeme, ← List.cons_append, ← shape, find?_mark ends]
  dsimp only
  rw [shape]
  rfl

end Marks

/-! ## Other tokens -/

section Lexemes

variable {c : Char} {rest tail : List Char}

/-- The micro sign is a letter of its own. -/
theorem isNamePart_formula (c : Char) : Formula.isNamePart c = isNamePart c := by
  by_cases micro : c = 'µ'
  · rw [micro]
    decide
  · rw [Formula.isNamePart, isNamePart, beq_eq_false_iff_ne.2 micro, Bool.or_false]

theorem not_quote {p : Char → Bool} (never : ['"', '\''].all (!p ·) = true) (here : p c = true) :
    ¬(c = '"' ∨ c = '\'') := by
  intro quote
  have absent := eq_false_of_mem never (c := c) (by simpa using quote)
  exact Bool.false_ne_true (absent.symm.trans here)

theorem lexeme_of_startsNumber (starts : Formula.startsNumber c rest = true) :
    lexeme c rest = .ok (.number, numberLength (c :: rest) - 1) := by
  simp only [Formula.startsNumber, Bool.or_eq_true, Bool.and_eq_true, beq_iff_eq] at starts
  have quote : ¬(c = '"' ∨ c = '\'') :=
    not_quote (p := fun c => c.isDigit || c == '.') (by decide)
      (by simpa using starts.imp_right And.left)
  rw [lexeme, if_neg quote, if_pos starts]

theorem lexeme_of_startsName (starts : startsName c = true) :
    lexeme c rest = nameLexeme c rest := by
  have quote : ¬(c = '"' ∨ c = '\'') := not_quote (by decide) starts
  have number : ¬(c.isDigit ∨ (c = '.' ∧ rest.head?.any Char.isDigit)) := by
    rintro (digit | ⟨rfl, _⟩)
    · exact Bool.false_ne_true ((Formula.not_isDigit_of_startsName starts).symm.trans digit)
    · cases starts
  have starts' : c.isAlpha ∨ c = '_' ∨ 0x80 ≤ c.toNat := by
    simpa [startsName, Formula.isAscii, or_assoc] using starts
  rw [lexeme, if_neg quote, if_neg number, if_pos starts']

theorem prolongers_symbol (s : Formula.Symbol) : ∀ d ∈ s.mark.prolongers,
    (d = '=' ∨ d = '<' ∨ d = '>') ∨ s = .star ∧ d = '*' := by
  have all : s.mark.prolongers.all
      (fun d => decide ((d = '=' ∨ d = '<' ∨ d = '>') ∨ s = .star ∧ d = '*')) = true := by
    cases s <;> decide
  exact fun d there => of_decide_eq_true (List.all_eq_true.1 all d there)

theorem prolongers_closing {s : Formula.Symbol} (closes : (Formula.Token.symbol s).turn = -1) :
    s.mark.prolongers = [] := by
  cases s <;> first | rfl | cases closes

/-- What stands behind a symbol makes no other mark of it. -/
theorem not_prolonged {s : Formula.Symbol} {behind : List Char} (apart : Apart (.symbol s) behind)
    (single : s = .star → behind.head? ≠ some '*') :
    ∀ d, behind.head? = some d → d ∉ s.mark.prolongers := by
  intro d next prolongs
  rcases apart with closes | free
  · rw [prolongers_closing closes] at prolongs
    exact absurd prolongs List.not_mem_nil
  · obtain ⟨equal, less, greater⟩ := free d next
    rcases prolongers_symbol s d prolongs with (same | same | same) | ⟨star, rfl⟩
    · exact equal same
    · exact less same
    · exact greater same
    · exact single star next

theorem lexeme_of_mark {m : Mark} {cs : List Char} (shape : m.chars = c :: cs) :
    lexeme c rest = markLexeme c rest := by
  cases m <;> (obtain ⟨rfl, _⟩ := List.cons.inj shape; rfl)

/-- **The lexer of sources takes the tokens of formulas as they are.** -/
theorem lexeme_of_formula {t : Formula.Token} {n : Nat}
    (read : Formula.lexeme c rest = .ok (t, n)) (one : '\n' ∉ rest)
    (apart : Apart t (rest.drop n ++ tail)) (stopped : Stopped tail) :
    lexeme c (rest ++ tail) = .ok (t.kind, n) ∧ n ≤ rest.length := by
  unfold Formula.lexeme at read
  split at read
  · rename_i starts
    obtain ⟨-, number⟩ := Formula.plain_number read
    have starts' : Formula.startsNumber c (rest ++ tail) = true := by
      cases rest with
      | nil =>
          rw [Formula.startsNumber, Bool.or_eq_true, Bool.and_eq_true] at starts ⊢
          exact .inl (starts.resolve_right fun none' => by cases none'.2)
      | cons d more => exact starts
    have apart' : decimalLength (rest.drop n ++ tail) = 0 := by
      rcases number with ⟨k, rfl⟩ | ⟨x, rfl⟩ <;> exact apart
    have is : t.kind = .number := by
      rcases number with ⟨k, rfl⟩ | ⟨x, rfl⟩ <;> rfl
    obtain ⟨length, bound⟩ := numberLength_of_lexeme read starts apart' stopped
    rw [lexeme_of_startsNumber starts', length, is]
    exact ⟨rfl, bound⟩
  · rename_i noNumber
    split at read
    · rename_i starts
      have taken : (rest ++ tail).takeWhile isNamePart = rest.takeWhile isNamePart :=
        takeWhile_stopped stopped (by decide)
      unfold Formula.nameLexeme at read
      rw [funext isNamePart_formula] at read
      rw [lexeme_of_startsName starts, nameLexeme, taken]
      split at read
      · rename_i part
        obtain ⟨rfl, rfl⟩ := Prod.mk.inj (Except.ok.inj read)
        rw [if_pos part]
        exact ⟨rfl, (List.takeWhile_prefix _).length_le⟩
      · cases read
    · rename_i noName
      split at read
      · rename_i quote
        unfold Formula.textLexeme at read
        split at read
        · rename_i body after found
          obtain ⟨rfl, rfl⟩ := Prod.mk.inj (Except.ok.inj read)
          obtain ⟨d, rfl, here, free⟩ := Text.splitFirst?_eq_some found
          rw [lexeme, if_pos quote, textLexeme, List.append_assoc, List.cons_append,
            Text.splitFirst?_append free here]
          dsimp only
          rw [if_neg fun there => one (List.mem_append_left _ there)]
          exact ⟨rfl, by simp⟩
        · cases read
      · rename_i noQuote
        unfold Formula.symbolLexeme at read
        split at read
        · rename_i s found
          obtain ⟨rfl, rfl⟩ := Prod.mk.inj (Except.ok.inj read)
          have starts := List.find?_some found
          obtain ⟨behind, shape⟩ := List.isPrefixOf_iff_prefix.1 starts
          obtain ⟨cs, chars⟩ : ∃ cs, s.chars = c :: cs := by
            cases s <;> (obtain ⟨rfl, _⟩ := List.cons.inj shape; exact ⟨_, rfl⟩)
          rw [chars] at shape apart ⊢
          have whole : cs ++ behind = rest := (List.cons.inj shape).2
          subst whole
          have apart' : Apart (.symbol s) (behind ++ tail) := by
            rwa [List.length_cons, Nat.add_sub_cancel, List.drop_left] at apart
          have single : s = .star → (behind ++ tail).head? ≠ some '*' := by
            rintro rfl next
            obtain ⟨rfl, rfl⟩ := List.cons.inj chars
            cases behind with
            | nil => exact absurd (stopped '*' next) (by decide)
            | cons d more =>
                obtain rfl := Option.some.inj next
                cases found
          rw [lexeme_of_mark (s.chars_mark.trans chars), List.append_assoc,
            markLexeme_of_chars (s.chars_mark.trans chars) (not_prolonged apart' single)]
          exact ⟨rfl, by simp⟩
        · cases read

end Lexemes

/-! ## Neighbours -/

section Neighbours

variable {c : Char} {rest tail : List Char}

theorem decimalLength_eq_zero (other : (c.isDigit || c == '.' || c == '_') = false)
    (exponent : c = 'e' ∨ c = 'E' → ∀ d more, rest = d :: more →
      ¬(d.isDigit ∨ d = '-' ∨ d = '+')) : decimalLength (c :: rest) = 0 := by
  cases rest with
  | nil => rw [decimalLength, other, if_neg Bool.false_ne_true]
  | cons d more =>
      rw [decimalLength, other, if_neg Bool.false_ne_true, if_neg]
      exact fun mark => exponent mark.1 d more rfl mark.2

theorem decimalLength_of_mem {cs : List Char} (there : c ∈ cs)
    (never : cs.all (fun c => !(c.isDigit || c == '.' || c == '_')) = true)
    (noMark : cs.all (fun c => !(c == 'e' || c == 'E')) = true) :
    decimalLength (c :: rest) = 0 := by
  refine decimalLength_eq_zero
    (eq_false_of_mem (p := fun c => c.isDigit || c == '.' || c == '_') never there) fun mark => ?_
  have other := eq_false_of_mem (p := fun c => c == 'e' || c == 'E') noMark there
  exact absurd mark (by simpa using other)

/-- Characters that prolong neither a number nor a symbol: blanks, and what ends a formula. -/
def breaks : List Char := [' ', '\t', '\r', '\x0c'] ++ stops

theorem apart_of_break {t : Formula.Token} (here : c ∈ breaks) : Apart t (c :: rest) := by
  cases t with
  | int | float => exact decimalLength_of_mem here (by decide) (by decide)
  | text | name | finish => trivial
  | symbol s =>
      refine .inr fun d same => ?_
      obtain rfl := Option.some.inj same
      have noMark :=
        eq_false_of_mem (p := fun c => c == '=' || c == '<' || c == '>') (by decide) here
      simpa [not_or, and_assoc] using noMark

/-- A name that is a keyword or a unit does not look like the rest of a number. -/
theorem decimalLength_of_name {s : String} (starts : startsName c = true)
    (part : isNamePart c = true) (shape : s.toList = c :: rest.takeWhile isNamePart)
    (ends : (Formula.Token.name s).endsNumber) : decimalLength (c :: rest) = 0 := by
  have noPoint : c ≠ '.' := by
    rintro rfl
    cases starts
  rcases ends with keyword | ⟨unit, read⟩
  · have letter : c ∈ ['a', 'o', 'n'] := by
      simp only [Formula.isKeyword, Bool.or_eq_true, beq_iff_eq] at keyword
      rcases keyword with (rfl | rfl) | rfl <;> rw [← (List.cons.inj shape).1] <;> decide
    exact decimalLength_of_mem letter (by decide) (by decide)
  · have parts : ∀ d ∈ s.toList, isNamePart d = true := by
      rw [shape]
      exact List.forall_mem_cons.2 ⟨part, fun d there => Text.mem_takeWhile there⟩
    have never : ∀ {d : Char}, isNamePart d = false → ∀ x ∈ s.toList, x ≠ d :=
      fun absent x there => ne_of_isNamePart (parts x there) absent
    have noOne : s.toList ≠ ['1'] := by
      intro one
      rw [one] at shape
      rw [← (List.cons.inj shape).1] at starts
      cases starts
    have some' : s.toList ≠ [] := by
      rw [shape]
      exact List.cons_ne_nil _ _
    obtain ⟨named, found⟩ := PhysicalUnit.simple?_of_parse read some' noOne fun x there =>
      ⟨isNamePart_not_blank (parts x there), never (by decide) x there, never (by decide) x there,
        never (by decide) x there⟩
    have letters := PhysicalUnit.all_of_simple? (p := fun d => !d.isDigit && d != '_') (by decide)
      (by decide) found
    rw [shape] at found letters
    simp only [List.forall_mem_cons, Bool.and_eq_true, Bool.not_eq_true', bne_iff_ne] at letters
    obtain ⟨⟨noDigit, noUnderscore⟩, behind⟩ := letters
    refine decimalLength_eq_zero ?_ ?_
    · rw [noDigit, beq_eq_false_iff_ne.2 noPoint, beq_eq_false_iff_ne.2 noUnderscore]
      rfl
    · rintro mark d more rfl (digit | sign)
      · rw [List.takeWhile_cons, if_pos (isNamePart_of_isDigit digit)] at behind
        have noDigit' := (behind d (List.mem_cons_self ..)).1
        exact Bool.false_ne_true (noDigit'.symm.trans digit)
      · have alone : (d :: more).takeWhile isNamePart = [] := by
          rcases sign with rfl | rfl <;> rfl
        rw [alone] at found
        rcases mark with rfl | rfl <;>
          exact absurd (found.symm.trans (by decide)) (Option.some_ne_none named)

/-- Only comparisons start like one. -/
theorem compares_of_lexeme {t : Formula.Token} {n : Nat} (mark : c = '=' ∨ c = '<' ∨ c = '>')
    (read : Formula.lexeme c rest = .ok (t, n)) : t.compares = true := by
  have only : Formula.lexeme c rest = Formula.symbolLexeme c rest := by
    rcases mark with rfl | rfl | rfl <;> rfl
  rw [only] at read
  unfold Formula.symbolLexeme at read
  split at read
  · rename_i s found
    obtain ⟨rfl, rfl⟩ := Prod.mk.inj (Except.ok.inj read)
    have front' := List.find?_some found
    obtain ⟨behind, shape⟩ := List.isPrefixOf_iff_prefix.1 front'
    have front : s.chars.head? = some c := by
      cases s <;> exact congrArg some (List.cons.inj shape).1
    rcases mark with rfl | rfl | rfl <;> cases s <;> first | rfl | cases front
  · cases read

/-- **Neighbours in a formula stand apart**, and so do its last token and what ends it. -/
theorem apart_of_tokens {t : Formula.Token} {offset : Nat} {cs : List Char}
    {ts : List Formula.Located}
    (cut : Formula.tokensFrom offset cs = .ok ts) (meets : ∀ u ∈ ts.head?, t.Meets u.token)
    (stopped : Stopped tail) : Apart t (cs ++ tail) := by
  cases cs with
  | nil =>
      cases tail with
      | nil =>
          cases t with
          | int | float => rfl
          | text | name | finish => trivial
          | symbol s => exact .inr fun d none' => by cases none'
      | cons d more => exact apart_of_break (List.mem_append_right _ (stopped d rfl))
  | cons c rest =>
      rw [Formula.tokensFrom] at cut
      split at cut
      · rename_i blank
        refine apart_of_break ?_
        simp only [Formula.isSpace, Bool.or_eq_true, beq_iff_eq] at blank
        rcases blank with (((rfl | rfl) | rfl) | rfl) | rfl <;> decide
      · split at cut
        · cases cut
        · rename_i u n read
          obtain ⟨ts, _, result⟩ := bind_eq_ok.1 cut
          obtain rfl := Except.ok.inj result
          have meets' : t.Meets u := meets _ rfl
          have number : u.endsNumber → decimalLength (c :: (rest ++ tail)) = 0 := by
            intro ends
            cases Formula.lexed_of_lexeme read with
            | number is => rcases is with ⟨_, rfl⟩ | ⟨_, rfl⟩ <;> exact ends.elim
            | name starts part =>
                rw [isNamePart_formula] at part
                refine decimalLength_of_name starts part ?_ ends
                rw [String.toList_ofList, takeWhile_stopped stopped (by decide),
                  funext isNamePart_formula]
            | text quote =>
                have there : c ∈ ['"', '\''] := by simpa using quote
                exact decimalLength_of_mem there (by decide) (by decide)
            | symbol s shape =>
                have there : c ∈ Formula.Symbol.all.flatMap Formula.Symbol.chars := by
                  cases s <;> (obtain ⟨rfl, _⟩ := List.cons.inj shape; decide)
                exact decimalLength_of_mem there (by decide) (by decide)
          cases t with
          | int | float => exact number meets'
          | text | name | finish => trivial
          | symbol s =>
              refine meets'.imp_right fun plain d same => ?_
              obtain rfl := Option.some.inj same
              have free : ∀ mark : Char, mark = '=' ∨ mark = '<' ∨ mark = '>' → c ≠ mark := by
                rintro _ mark rfl
                exact Bool.false_ne_true (plain.symm.trans (compares_of_lexeme mark read))
              exact ⟨free _ (.inl rfl), free _ (.inr (.inl rfl)), free _ (.inr (.inr rfl))⟩

end Neighbours

end Ppp

end PulseSequencer
