import PulseSequencer.Program.Assembler
import PulseSequencer.Proofs.Formula.Parsing
import PulseSequencer.Proofs.Text.Lines

/-
# PulseSequencer.Proofs.Formula.Enclosure -- what the text of a formula encloses

The brackets and quotes of a formula are closed at its end, a comma stands inside
brackets or quotes, and a number sign inside quotes: `enclosed_of_parse`.  So the
assembler takes the whole text of a formula as one field of a line.
-/

namespace PulseSequencer.Formula

open PulseSequencer.Assembler (Nesting)
open PulseSequencer.Text (mem_takeWhile take_takeWhile splitFirst?_eq_some)

set_option autoImplicit false

/-- The characters that matter where a line is cut into fields and a comment. -/
def nestingMarks : List Char := ['"', '\'', '(', '[', '{', ')', ']', '}', ',', '#']

/-- Read from some nesting on, a text closes all brackets and quotes, has commas inside
of them only, and number signs inside quotes only. -/
def Enclosed (n : Nesting) : List Char → Prop
  | [] => n = {}
  | c :: rest =>
      (c = ',' → n.quote = none → 0 < n.depth) ∧ (c = '#' → n.quote ≠ none) ∧
        Enclosed (n.step c) rest

section Enclosed

variable {depth : Int} {c : Char} {cs rest : List Char}

theorem ne_of_plain {m : Char} (plain : c ∉ nestingMarks) (mark : m ∈ nestingMarks) : c ≠ m :=
  fun same => plain (same ▸ mark)

theorem step_plain (plain : c ∉ nestingMarks) : Nesting.step ⟨depth, none⟩ c = ⟨depth, none⟩ := by
  simp only [nestingMarks, List.mem_cons, List.not_mem_nil, or_false, not_or] at plain
  simp [Nesting.step, plain]

theorem enclosed_plain (plain : c ∉ nestingMarks) :
    Enclosed ⟨depth, none⟩ (c :: rest) ↔ Enclosed ⟨depth, none⟩ rest := by
  rw [Enclosed, step_plain plain]
  refine ⟨fun enclosed => enclosed.2.2, fun enclosed => ⟨fun comma => ?_, fun sign => ?_, enclosed⟩⟩
  · exact absurd comma (ne_of_plain plain (by decide))
  · exact absurd sign (ne_of_plain plain (by decide))

theorem enclosed_append (plain : ∀ c ∈ cs, c ∉ nestingMarks) :
    Enclosed ⟨depth, none⟩ (cs ++ rest) ↔ Enclosed ⟨depth, none⟩ rest := by
  induction cs with
  | nil => exact Iff.rfl
  | cons c more ih =>
      rw [List.cons_append, enclosed_plain (plain c (List.mem_cons_self ..)),
        ih fun d there => plain d (List.mem_cons_of_mem _ there)]

/-- Inside quotes nothing counts but the quote itself. -/
theorem enclosed_inside {quote : Char} (absent : quote ∉ cs) :
    Enclosed ⟨depth, some quote⟩ (cs ++ quote :: rest) ↔ Enclosed ⟨depth, none⟩ rest := by
  induction cs with
  | nil => simp [Enclosed, Nesting.step]
  | cons c more ih =>
      have differs : c ≠ quote := fun same => absent (same ▸ List.mem_cons_self ..)
      rw [List.cons_append, Enclosed, Nesting.step]
      simp only [differs, if_false, ih fun there => absent (List.mem_cons_of_mem _ there)]
      simp

theorem enclosed_text {quote : Char} (opens : quote = '"' ∨ quote = '\'') (absent : quote ∉ cs) :
    Enclosed ⟨depth, none⟩ (quote :: (cs ++ quote :: rest)) ↔ Enclosed ⟨depth, none⟩ rest := by
  rw [Enclosed, Nesting.step]
  simp only [opens, if_true, enclosed_inside absent]
  rcases opens with rfl | rfl <;> simp

/-- A character of a kind to which no mark belongs. -/
theorem plain_of {p : Char → Bool} (never : nestingMarks.all (fun m => !p m) = true)
    (here : p c = true) : c ∉ nestingMarks := by
  intro mark
  have absent := List.all_eq_true.1 never c mark
  rw [here] at absent
  cases absent

end Enclosed

/-! ## Lexemes -/

section Lexemes

variable {c : Char} {cs rest : List Char}

/-- An exponent is its mark, perhaps a sign, and digits. -/
theorem exponent_shape {n : Nat} (found : exponentLength? (c :: rest) = some n) :
    ∃ sign digits, rest = sign ++ digits ∧ (sign = [] ∨ sign = ['+'] ∨ sign = ['-']) ∧
      digits.takeWhile Char.isDigit ≠ [] ∧
        n = 1 + sign.length + (digits.takeWhile Char.isDigit).length := by
  unfold exponentLength? at found
  dsimp only at found
  split at found
  · cases found
  · rename_i some'
    obtain rfl := Option.some.inj found
    clear found
    revert some'
    split <;> intro some'
    · exact ⟨['+'], _, rfl, .inr (.inl rfl), fun none' => some' (congrArg List.length none'), rfl⟩
    · exact ⟨['-'], _, rfl, .inr (.inr rfl), fun none' => some' (congrArg List.length none'), rfl⟩
    · exact ⟨[], _, rfl, .inl rfl, fun none' => some' (congrArg List.length none'), rfl⟩

theorem plain_exponent {n : Nat} (found : exponentLength? (c :: rest) = some n)
    (mark : c = 'e' ∨ c = 'E') : ∀ d ∈ (c :: rest).take n, d ∉ nestingMarks := by
  obtain ⟨sign, digits, rfl, signs, -, rfl⟩ := exponent_shape found
  rw [show ∀ k, 1 + sign.length + k = (sign.length + k) + 1 by omega, List.take_succ_cons,
    List.take_length_add_append, take_takeWhile]
  intro d there
  rcases List.mem_cons.1 there with rfl | there
  · rcases mark with rfl | rfl <;> decide
  · rcases List.mem_append.1 there with inSign | digit
    · rcases signs with rfl | rfl | rfl
      · exact absurd inSign List.not_mem_nil
      · exact List.mem_singleton.1 inSign ▸ by decide
      · exact List.mem_singleton.1 inSign ▸ by decide
    · exact plain_of (p := Char.isDigit) (by decide) (mem_takeWhile digit)

/-- A decimal number has no mark in it. -/
theorem plain_decimal (pointSeen : Bool) (cs : List Char) :
    ∀ d ∈ cs.take (decimalExtent pointSeen cs).1, d ∉ nestingMarks := by
  induction cs generalizing pointSeen with
  | nil => simp [decimalExtent]
  | cons c rest ih =>
      intro d there
      rw [decimalExtent] at there
      split at there
      · rename_i digit
        rw [List.take_succ_cons] at there
        rcases List.mem_cons.1 there with rfl | there
        · exact plain_of (p := fun d => d.isDigit || d == '_') (by decide) digit
        · exact ih _ d there
      · split at there
        · rename_i point
          rw [List.take_succ_cons] at there
          rcases List.mem_cons.1 there with rfl | there
          · rw [point.1]
            decide
          · exact ih _ d there
        · split at there
          · rename_i mark
            split at there
            · exact plain_exponent ‹_› mark d there
            · exact absurd there List.not_mem_nil
          · exact absurd there List.not_mem_nil

/-- Whether a token is a number. -/
def Token.IsNumber (token : Token) : Prop := (∃ n, token = .int n) ∨ ∃ x, token = .float x

theorem isNumber_of_decimal {digits : List Char} {isReal : Bool} {token : Token}
    (read : decimalToken digits isReal = .ok token) : token.IsNumber := by
  have real : ∀ {token}, floatToken digits = .ok token → token.IsNumber := by
    intro token read
    unfold floatToken at read
    split at read
    · exact .inr ⟨_, (Except.ok.inj read).symm⟩
    · cases read
  unfold decimalToken at read
  split at read
  · exact real read
  · split at read
    · exact .inl ⟨_, (Except.ok.inj read).symm⟩
    · exact real read

theorem plain_number_decimal {token : Token} {n : Nat}
    (read : numberLexeme.decimal (c :: rest) = .ok (token, n)) :
    (∀ d ∈ rest.take n, d ∉ nestingMarks) ∧ token.IsNumber := by
  have plain := plain_decimal false (c :: rest)
  unfold numberLexeme.decimal at read
  generalize decimalExtent false (c :: rest) = extent at plain read
  obtain ⟨k, isReal⟩ := extent
  obtain ⟨token', made, result⟩ := bind_eq_ok.1 read
  obtain ⟨rfl, rfl⟩ := Prod.mk.inj (Except.ok.inj result)
  refine ⟨fun d there => ?_, isNumber_of_decimal made⟩
  cases k with
  | zero => exact absurd there List.not_mem_nil
  | succ k => exact plain d (List.mem_cons_of_mem _ there)

/-- The characters that a number takes behind its first one have no mark among them. -/
theorem plain_number {token : Token} {n : Nat} (read : numberLexeme c rest = .ok (token, n)) :
    (∀ d ∈ rest.take n, d ∉ nestingMarks) ∧ token.IsNumber := by
  unfold numberLexeme at read
  split at read
  · rename_i x tail
    split at read
    · rename_i mark
      dsimp only at read
      split at read
      · obtain ⟨rfl, rfl⟩ := Prod.mk.inj (Except.ok.inj read)
        refine ⟨fun d there => ?_, .inl ⟨_, rfl⟩⟩
        rw [List.take_succ_cons, take_takeWhile] at there
        rcases List.mem_cons.1 there with rfl | digit
        · rcases mark with rfl | rfl <;> decide
        · have here := mem_takeWhile digit
          exact plain_of (p := fun d => isHexDigit d || d == '_') (by decide) here
      · cases read
    · exact plain_number_decimal read
  · exact plain_number_decimal read

theorem isNamePart_marks : nestingMarks.all (fun m => !isNamePart m) = true := by decide

/-- Whether a name can start with a character. -/
def startsName (c : Char) : Bool := c.isAlpha || c == '_' || !isAscii c

/-- What a token is that stands at the front of a text, of which the number of further
characters belongs to it. -/
inductive Lexed (c : Char) (rest : List Char) : Token → Nat → Prop
  | number {token : Token} {n : Nat} (is : token.IsNumber) (first : c ∉ nestingMarks)
      (plain : ∀ d ∈ rest.take n, d ∉ nestingMarks) : Lexed c rest token n
  | name (starts : startsName c = true) (part : isNamePart c = true) :
      Lexed c rest (.name (String.ofList (c :: rest.takeWhile isNamePart)))
        (rest.takeWhile isNamePart).length
  | text {body : List Char} (quote : c = '"' ∨ c = '\'') (absent : c ∉ body)
      (shape : rest = body ++ c :: rest.drop (body.length + 1)) :
      Lexed c rest (.text (String.ofList body)) (body.length + 1)
  | symbol (s : Symbol) (shape : c :: rest = s.chars ++ rest.drop (s.chars.length - 1)) :
      Lexed c rest (.symbol s) (s.chars.length - 1)

/-- **Every token is of one of four kinds.** -/
theorem lexed_of_lexeme {token : Token} {n : Nat} (read : lexeme c rest = .ok (token, n)) :
    Lexed c rest token n := by
  unfold lexeme at read
  split at read
  · rename_i starts
    obtain ⟨plain, is⟩ := plain_number read
    refine .number is ?_ plain
    refine plain_of (p := fun c => c.isDigit || c == '.') (by decide) ?_
    simp only [startsNumber, Bool.or_eq_true, Bool.and_eq_true] at starts ⊢
    exact starts.imp_right And.left
  · split at read
    · rename_i starts
      unfold nameLexeme at read
      split at read
      · rename_i part
        obtain ⟨rfl, rfl⟩ := Prod.mk.inj (Except.ok.inj read)
        exact .name starts part
      · cases read
    · split at read
      · rename_i quote
        unfold textLexeme at read
        split at read
        · rename_i body after found
          obtain ⟨rfl, rfl⟩ := Prod.mk.inj (Except.ok.inj read)
          obtain ⟨d, shape, here, free⟩ := splitFirst?_eq_some found
          obtain rfl := of_decide_eq_true here
          refine .text quote (fun there => ?_) ?_
          · exact absurd rfl (of_decide_eq_false (free d there))
          · rw [shape, List.drop_length_add_append]
            rfl
        · cases read
      · unfold symbolLexeme at read
        split at read
        · rename_i s found
          obtain ⟨rfl, rfl⟩ := Prod.mk.inj (Except.ok.inj read)
          have starts := List.find?_some found
          obtain ⟨tail, shape⟩ := List.isPrefixOf_iff_prefix.1 starts
          refine .symbol s ?_
          rw [← shape]
          cases s <;> (obtain ⟨rfl, rfl⟩ := List.cons.inj shape; rfl)
        · cases read

/-- No lexeme is the end mark. -/
theorem ne_finish_of_lexeme {token : Token} {n : Nat} (read : lexeme c rest = .ok (token, n)) :
    token ≠ .finish := by
  rintro rfl
  cases lexed_of_lexeme read with
  | number is => rcases is with ⟨_, is⟩ | ⟨_, is⟩ <;> cases is

end Lexemes

/-! ## Whole texts -/

theorem plain_space {c : Char} (space : isSpace c = true) : c ∉ nestingMarks :=
  plain_of (p := isSpace) (by decide) space

theorem Token.IsNumber.turn {token : Token} (is : token.IsNumber) : token.turn = 0 := by
  rcases is with ⟨n, rfl⟩ | ⟨x, rfl⟩ <;> rfl

/-- What a token encloses, and what the text behind it does. -/
theorem enclosed_lexed {c : Char} {rest : List Char} {token : Token} {n : Nat} {depth : Int}
    (lexed : Lexed c rest token n) (comma : token = .symbol .comma → 0 < depth)
    (enclosed : Enclosed ⟨depth + token.turn, none⟩ (rest.drop n)) :
    Enclosed ⟨depth, none⟩ (c :: rest) := by
  cases lexed with
  | number is first plain =>
      rw [is.turn, Int.add_zero] at enclosed
      rw [enclosed_plain first, ← List.take_append_drop n rest, enclosed_append plain]
      exact enclosed
  | name starts part =>
      have plain : ∀ d ∈ rest.takeWhile isNamePart, d ∉ nestingMarks := fun d there =>
        plain_of isNamePart_marks (mem_takeWhile there)
      rw [← take_takeWhile] at plain
      rw [enclosed_plain (plain_of isNamePart_marks part),
        ← List.take_append_drop (rest.takeWhile isNamePart).length rest, enclosed_append plain]
      simpa [Token.turn] using enclosed
  | @text body quote absent shape =>
      rw [shape, enclosed_text quote absent]
      simpa [Token.turn] using enclosed
  | symbol s shape =>
      rw [shape]
      cases s with
      | comma => simpa [Symbol.chars, Enclosed, Nesting.step, Token.turn, comma] using enclosed
      | openParen | openBracket | openBrace | closeParen | closeBracket | closeBrace =>
          simpa [Symbol.chars, Enclosed, Nesting.step, Token.turn, Int.sub_eq_add_neg] using enclosed
      | _ => simpa [Symbol.chars, Enclosed, Nesting.step, Token.turn] using enclosed

/-- What holds of the end of a text and is kept by blanks and by tokens holds of every
text that is cut into tokens. -/
theorem tokens_induction {motive : List Char → List Located → Prop}
    (nil : ∀ offset, motive [] [⟨.finish, offset⟩])
    (space : ∀ c rest ts, isSpace c = true → motive rest ts → motive (c :: rest) ts)
    (token : ∀ c rest token n offset behind ts, isSpace c = false →
      lexeme c rest = .ok (token, n) → tokensFrom behind (rest.drop n) = .ok ts →
        motive (rest.drop n) ts → motive (c :: rest) (⟨token, offset⟩ :: ts))
    {offset : Nat} {cs : List Char} {ts : List Located} (cut : tokensFrom offset cs = .ok ts) :
    motive cs ts := by
  induction size : cs.length using Nat.strongRecOn generalizing offset cs ts with
  | ind size ih =>
      subst size
      cases cs with
      | nil =>
          rw [tokensFrom] at cut
          obtain rfl := Except.ok.inj cut
          exact nil offset
      | cons c rest =>
          rw [tokensFrom] at cut
          split at cut
          · rename_i blank
            exact space c rest ts blank (ih _ (Nat.lt_succ_self _) cut rfl)
          · rename_i solid
            split at cut
            · cases cut
            · rename_i t n read
              obtain ⟨more, further, result⟩ := bind_eq_ok.1 cut
              obtain rfl := Except.ok.inj result
              have shorter : (rest.drop n).length < (c :: rest).length := by
                rw [List.length_drop, List.length_cons]
                omega
              exact token c rest t n offset _ more (eq_false_of_ne_true solid) read further
                (ih _ shorter further rfl)

section Tokens

variable {offset : Nat} {cs : List Char} {ts : List Located}

theorem enclosed_of_tokens (cut : tokensFrom offset cs = .ok ts) :
    ∀ prev depth, Flows prev depth ts → Enclosed ⟨depth, none⟩ cs := by
  refine tokens_induction (motive := fun cs ts =>
    ∀ prev depth, Flows prev depth ts → Enclosed ⟨depth, none⟩ cs) ?_ ?_ ?_ cut
  · intro offset prev depth flows
    have closed : depth + 0 = 0 := flows.2.2.2
    rw [Int.add_zero] at closed
    exact congrArg (Nesting.mk · none) closed
  · exact fun c rest ts space enclosed prev depth flows =>
      (enclosed_plain (plain_space space)).2 (enclosed prev depth flows)
  · intro c rest token n offset behind ts _ read _ enclosed prev depth ⟨_, inside, _, onward⟩
    refine enclosed_lexed (lexed_of_lexeme read) (fun comma => inside ?_) (enclosed _ _ onward)
    rw [show (Located.mk token offset).token = token from rfl, comma]
    rfl

/-- The end mark is the last token. -/
theorem last_of_finish (cut : tokensFrom offset cs = .ok ts) :
    ∀ run t rest, ts = run ++ t :: rest → t.token = .finish → rest = [] := by
  refine tokens_induction (motive := fun _ ts =>
    ∀ run t rest, ts = run ++ t :: rest → t.token = .finish → rest = []) ?_ ?_ ?_ cut
  · intro offset run t rest shape _
    cases run with
    | nil => exact (List.cons.inj shape).2.symm
    | cons head others => simp at shape
  · exact fun c rest ts _ last => last
  · intro c rest token n offset behind ts _ read _ last run t after shape finish
    cases run with
    | nil =>
        obtain ⟨rfl, rfl⟩ := List.cons.inj shape
        exact absurd finish (ne_finish_of_lexeme read)
    | cons head others => exact last others t after (List.cons.inj shape).2 finish

/-- Names are made of the characters of names, the first of which can start one and
stands in the text. -/
theorem names_of_tokens (cut : tokensFrom offset cs = .ok ts) :
    Names (fun name => (∀ c ∈ name.toList, isNamePart c = true) ∧
      ∃ c ∈ cs, startsName c = true) ts := by
  refine tokens_induction (motive := fun cs ts => Names (fun name =>
    (∀ c ∈ name.toList, isNamePart c = true) ∧ ∃ c ∈ cs, startsName c = true) ts) ?_ ?_ ?_ cut
  · intro offset name place there
    simp at there
  · intro c rest ts _ names name place there
    obtain ⟨parts, d, inside, starts⟩ := names name place there
    exact ⟨parts, d, List.mem_cons_of_mem _ inside, starts⟩
  · intro c rest token n offset behind ts _ read _ names name place there
    rcases List.mem_cons.1 there with here | further
    · obtain ⟨rfl, rfl⟩ := Located.mk.inj here
      cases lexed_of_lexeme read with
      | number is => rcases is with ⟨_, is⟩ | ⟨_, is⟩ <;> cases is
      | name starts part =>
          refine ⟨fun d inside => ?_, c, List.mem_cons_self .., starts⟩
          rw [String.toList_ofList] at inside
          rcases List.mem_cons.1 inside with rfl | more
          · exact part
          · exact mem_takeWhile more
    · obtain ⟨parts, d, inside, starts⟩ := names name place further
      exact ⟨parts, d, List.mem_cons_of_mem _ (List.mem_of_mem_drop inside), starts⟩

end Tokens

/-- **What the tokens of a formula do**: they lead from no open bracket to none, and have
the names and units of the formula among them. -/
theorem flows_of_parse {text : String} {f : Formula} (parsed : parse text = .ok f) :
    ∃ ts, tokenize text = .ok ts ∧ Flows .finish 0 ts ∧
      ∀ P : String → Prop, Names P ts → f.MadeOf P := by
  obtain ⟨run, rest, cut, finish, reads⟩ := reads_of_parse parsed
  refine ⟨run ++ rest, cut, ?_, fun P names => reads.madeOf (names_append.1 names).1⟩
  refine reads.flows .finish 0 rest (fun _ _ => trivial) (Int.le_refl 0) fun t ends => ?_
  cases rest with
  | nil => rfl
  | cons last others =>
      obtain rfl := last_of_finish cut run last others rfl finish
      obtain ⟨token, offset⟩ := last
      obtain rfl : token = .finish := finish
      exact flows_plain (ends _ trivial) rfl rfl (Int.le_refl 0) rfl

theorem parse_empty (f : Formula) : parse "" ≠ .ok f := by
  intro parsed
  have tokens : tokenize "" = .ok [⟨.finish, 0⟩] := by
    rw [tokenize, String.toList_empty, tokensFrom]
  unfold parse at parsed
  rw [tokens] at parsed
  cases parsed

/-- **The text of a formula encloses what it has to.** -/
theorem enclosed_of_parse {text : String} {f : Formula} (parsed : parse text = .ok f) :
    Enclosed {} text.toList := by
  obtain ⟨ts, cut, flows, _⟩ := flows_of_parse parsed
  exact enclosed_of_tokens cut .finish 0 flows

/-- **The names and units of a formula are names of its text.** -/
theorem madeOf_of_parse {text : String} {f : Formula} (parsed : parse text = .ok f) :
    f.MadeOf fun name => (∀ c ∈ name.toList, isNamePart c = true) ∧
      ∃ c ∈ text.toList, startsName c = true := by
  obtain ⟨ts, cut, _, made⟩ := flows_of_parse parsed
  exact made _ (names_of_tokens cut)

end PulseSequencer.Formula
