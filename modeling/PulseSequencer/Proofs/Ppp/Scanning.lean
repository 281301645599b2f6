import PulseSequencer.Ppp.Parser
import PulseSequencer.Proofs.Except
import PulseSequencer.Proofs.Ppp.Names
import PulseSequencer.Proofs.Ppp.Turns
import PulseSequencer.Proofs.Text.Lines

/-
# PulseSequencer.Proofs.Ppp.Scanning -- what stands between tokens

`Body` says how a piece of a logical line opens and closes brackets: a line feed in it
stands inside brackets or behind a backslash.  `Lexes` places every token in the source,
with such a piece in front of it, and `lexes_of_tokenize` shows that the scanner does.
-/

namespace PulseSequencer.Ppp

open PulseSequencer.Text (byteLength isBlank mem_takeWhile take_takeWhile splitFirst?_eq_some)

set_option autoImplicit false

/-! ## Pieces of a logical line -/

/-- The characters that are not taken for themselves in a logical line. -/
def lineMarks : List Char := ['"', '\'', '(', '[', '{', ')', ']', '}', '#', '\n', '\\']

def isOpening (c : Char) : Bool := c == '(' || c == '[' || c == '{'

def isClosing (c : Char) : Bool := c == ')' || c == ']' || c == '}'

/-- A piece of a logical line, read with some brackets open and left with others.  Of
what follows a number sign nothing is said. -/
inductive Body : Nat → List Char → Nat → Prop
  | nil {depth : Nat} : Body depth [] depth
  | comment {depth last : Nat} {rest : List Char} : Body depth ('#' :: rest) last
  | plain {depth last : Nat} {c : Char} {rest : List Char} (plain : c ∉ lineMarks)
      (onward : Body depth rest last) : Body depth (c :: rest) last
  | newline {depth last : Nat} {rest : List Char} (inside : 0 < depth)
      (onward : Body depth rest last) : Body depth ('\n' :: rest) last
  | continued {depth last : Nat} {rest : List Char} (onward : Body depth rest last) :
      Body depth ('\\' :: '\n' :: rest) last
  | continuedReturn {depth last : Nat} {rest : List Char} (onward : Body depth rest last) :
      Body depth ('\\' :: '\r' :: '\n' :: rest) last
  | text {depth last : Nat} {quote : Char} {body rest : List Char}
      (opens : quote = '"' ∨ quote = '\'') (absent : quote ∉ body) (one : '\n' ∉ body)
      (onward : Body depth rest last) : Body depth (quote :: (body ++ quote :: rest)) last
  | opens {depth last : Nat} {c : Char} {rest : List Char} (opens : isOpening c = true)
      (onward : Body (depth + 1) rest last) : Body depth (c :: rest) last
  | closes {depth last : Nat} {c : Char} {rest : List Char} (closes : isClosing c = true)
      (onward : Body depth rest last) : Body (depth + 1) (c :: rest) last

section Body

variable {first middle last : Nat} {a b : List Char}

theorem Body.append (before : Body first a middle) (behind : Body middle b last) :
    Body first (a ++ b) last := by
  induction before with
  | nil => exact behind
  | comment => exact .comment
  | plain plain _ ih => exact .plain plain (ih behind)
  | newline inside _ ih => exact .newline inside (ih behind)
  | continued _ ih => exact .continued (ih behind)
  | continuedReturn _ ih => exact .continuedReturn (ih behind)
  | @text _ _ quote body rest opens absent one _ ih =>
      rw [List.cons_append, List.append_assoc, List.cons_append]
      exact .text opens absent one (ih behind)
  | opens opens _ ih => exact .opens opens (ih behind)
  | closes closes _ ih => exact .closes closes (ih behind)

theorem body_plain (plain : ∀ c ∈ a, c ∉ lineMarks) : Body first a first := by
  induction a with
  | nil => exact .nil
  | cons c rest ih =>
      exact .plain (plain c (List.mem_cons_self ..))
        (ih fun d there => plain d (List.mem_cons_of_mem _ there))

/-- A character of a kind to which no mark belongs. -/
theorem plain_of {c : Char} {p : Char → Bool} (never : lineMarks.all (fun m => !p m) = true)
    (here : p c = true) : c ∉ lineMarks := by
  intro mark
  have absent := List.all_eq_true.1 never c mark
  rw [here] at absent
  cases absent

end Body

/-! ## Ends of a piece -/

/-- A piece that starts and ends with itself: with no blank, and not with a backslash. -/
structure Tight (cs : List Char) : Prop where
  first : ∃ c, cs.head? = some c ∧ isBlank c = false ∧ c ≠ '\\'
  last : ∀ c, cs.getLast? = some c → isBlank c = false

section Tight

variable {a b : List Char}

theorem tight_of_all (some' : a ≠ []) (solid : ∀ c ∈ a, isBlank c = false ∧ c ≠ '\\') : Tight a where
  first := by
    obtain ⟨c, rest, rfl⟩ := List.exists_cons_of_ne_nil some'
    exact ⟨c, rfl, solid c (List.mem_cons_self ..)⟩
  last c ends := (solid c (List.mem_of_getLast? ends)).1

/-- More behind a piece, if it ends with itself. -/
theorem Tight.append (before : Tight a) (ends : ∀ c, b.getLast? = some c → isBlank c = false) :
    Tight (a ++ b) where
  first := by
    obtain ⟨c, starts, solid⟩ := before.first
    exact ⟨c, by rw [List.head?_append, starts, Option.some_or], solid⟩
  last c last' := by
    rw [List.getLast?_append, Option.or_eq_some_iff] at last'
    rcases last' with later | ⟨_, here⟩
    · exact ends c later
    · exact before.last c here

end Tight

/-! ## Tokens in their places -/

/-- What a token makes of the number of open brackets. -/
def TokenKind.Turns (depth last : Nat) : TokenKind → Prop
  | .mark m =>
      if m.opens then last = depth + 1 else if m.closes then depth = last + 1 else last = depth
  | _ => last = depth

/-- The tokens of a source behind `before`, where some brackets are open.  The layout of
lines is all that there is between logical lines. -/
inductive Lexes (source : List Char) : List Char → Nat → List Token → Prop
  | layout {before other : List Char} {t : Token} {ts : List Token}
      (layout : t.kind.isLayout = true) (onward : Lexes source other 0 ts) :
      Lexes source before 0 (t :: ts)
  | last {before : List Char} {t : Token} (layout : t.kind.isLayout = true) :
      Lexes source before 0 [t]
  | token {before gap piece behind : List Char} {depth next : Nat} {t : Token} {ts : List Token}
      (shape : source = before ++ gap ++ piece ++ behind) (skipped : Body depth gap depth)
      (read : Body depth piece next) (turns : t.kind.Turns depth next)
      (start : t.start = byteLength (before ++ gap))
      (stop : t.stop = byteLength (before ++ gap ++ piece)) (dark : t.kind.isLayout = false)
      (isName : ∀ name, t.kind = .name name → IsName name.toList) (tight : Tight piece)
      (onward : Lexes source (before ++ gap ++ piece) next ts) :
      Lexes source before depth (t :: ts)

section Lexes

variable {source before : List Char} {depth : Nat} {ts : List Token}

/-- What is skipped belongs to the gap in front of the next token. -/
theorem Lexes.widen {gap : List Char} (skipped : Body depth gap depth)
    (lexes : Lexes source (before ++ gap) depth ts) : Lexes source before depth ts := by
  cases lexes with
  | layout layout onward => exact .layout layout onward
  | last layout => exact .last layout
  | @token _ more piece behind _ next t ts shape further read turns start stop dark isName tight
      onward =>
      rw [List.append_assoc before gap more] at shape start stop onward
      exact .token shape (skipped.append further) read turns start stop dark isName tight onward

theorem Lexes.some' (lexes : Lexes source before depth ts) : ts ≠ [] := by
  cases lexes <;> exact List.cons_ne_nil _ _

theorem lexes_layout {tokens : List Token} (layout : ∀ t ∈ tokens, t.kind.isLayout = true)
    (lexes : Lexes source before 0 ts) : Lexes source before 0 (tokens ++ ts) := by
  induction tokens with
  | nil => exact lexes
  | cons t rest ih =>
      exact .layout (layout t (List.mem_cons_self ..))
        (ih fun u there => layout u (List.mem_cons_of_mem _ there))

end Lexes

/-! ## Single tokens -/

theorem plain_namePart {c : Char} (part : isNamePart c = true) : c ∉ lineMarks :=
  plain_of (p := isNamePart) (by decide) part

/-- The characters of numbers: digits, points, underscores and the marks of exponents and of
hexadecimal numbers. -/
def isNumberPart (c : Char) : Bool :=
  isHexDigit c || c == '.' || c == '_' || c == '-' || c == '+' || c == 'x' || c == 'X'

theorem numberPart_of_digit {c : Char} (digit : c.isDigit = true) : isNumberPart c = true := by
  simp [isNumberPart, isHexDigit, digit]

theorem numberPart_of_decimal {c : Char} (here : (c.isDigit || c == '.' || c == '_') = true) :
    isNumberPart c = true := by
  simp only [Bool.or_eq_true, beq_iff_eq] at here
  rcases here with (digit | rfl) | rfl
  · exact numberPart_of_digit digit
  · rfl
  · rfl

theorem numberPart_decimal (cs : List Char) :
    ∀ c ∈ cs.take (decimalLength cs), isNumberPart c = true := by
  induction cs using decimalLength.induct with
  | case1 => exact fun c there => absurd there List.not_mem_nil
  | case2 c digit =>
      intro d there
      rw [decimalLength, if_pos digit] at there
      exact List.mem_singleton.1 there ▸ numberPart_of_decimal digit
  | case3 c digit =>
      intro d there
      rw [decimalLength, if_neg digit] at there
      exact absurd there List.not_mem_nil
  | case4 c d rest digit ih =>
      intro x there
      rw [decimalLength, if_pos digit, List.take_succ_cons] at there
      rcases List.mem_cons.1 there with rfl | there
      · exact numberPart_of_decimal digit
      · exact ih x there
  | case5 c d rest noDigit mark ih =>
      intro x there
      rw [decimalLength, if_neg noDigit, if_pos mark, List.take_succ_cons,
        List.take_succ_cons] at there
      obtain ⟨letter, sign⟩ := mark
      rcases List.mem_cons.1 there with rfl | there
      · rcases letter with rfl | rfl <;> decide
      rcases List.mem_cons.1 there with rfl | there
      · rcases sign with digit | rfl | rfl
        · exact numberPart_of_digit digit
        · decide
        · decide
      · exact ih x there
  | case6 c d rest noDigit noMark =>
      intro x there
      rw [decimalLength, if_neg noDigit, if_neg noMark] at there
      exact absurd there List.not_mem_nil

theorem numberPart_number (cs : List Char) :
    ∀ c ∈ cs.take (numberLength cs), isNumberPart c = true := by
  have hexadecimal : ∀ {c d : Char} {rest : List Char}, isNumberPart c = true →
      isNumberPart d = true → ∀ x ∈ (c :: d :: rest).take
        (2 + (rest.takeWhile fun c => isHexDigit c || c == '_').length), isNumberPart x = true := by
    intro c d rest first second x there
    rw [Nat.add_comm, List.take_succ_cons, List.take_succ_cons, take_takeWhile] at there
    rcases List.mem_cons.1 there with rfl | there
    · exact first
    rcases List.mem_cons.1 there with rfl | there
    · exact second
    · have here := mem_takeWhile there
      simp only [Bool.or_eq_true, beq_iff_eq] at here
      rcases here with digit | rfl
      · simp [isNumberPart, digit]
      · rfl
  intro c there
  unfold numberLength at there
  split at there
  · exact hexadecimal (by decide) (by decide) c there
  · exact hexadecimal (by decide) (by decide) c there
  · exact numberPart_decimal cs c there

theorem turns_of_depth {cursor : Cursor} {depth next : Nat} {kind : TokenKind}
    (after : depthAfterToken cursor depth kind = .ok next) : kind.Turns depth next := by
  cases kind with
  | mark m =>
      simp only [depthAfterToken, depthAfter] at after
      rw [TokenKind.Turns]
      split at after
      · rename_i opens
        rw [if_pos opens]
        exact (Except.ok.inj after).symm
      · rename_i noOpening
        rw [if_neg noOpening]
        split at after
        · rename_i closes
          rw [if_pos closes]
          cases depth with
          | zero => cases after
          | succ d => exact congrArg (· + 1) (Except.ok.inj after)
        · rename_i noClosing
          rw [if_neg noClosing]
          exact (Except.ok.inj after).symm
  | _ => exact (Except.ok.inj after).symm

/-- The characters of a mark open and close what the mark does. -/
theorem body_mark {m : Mark} {depth next : Nat} (turns : (TokenKind.mark m).Turns depth next) :
    Body depth m.chars next := by
  cases m with
  | openParen | openBracket | openBrace =>
      obtain rfl : next = depth + 1 := turns
      exact .opens rfl .nil
  | closeParen | closeBracket | closeBrace =>
      obtain rfl : depth = next + 1 := turns
      exact .closes rfl .nil
  | _ =>
      obtain rfl : next = depth := turns
      exact body_plain (by simp [Mark.chars, lineMarks])

/-- Characters of numbers and names are no blanks. -/
theorem solid_numberPart {c : Char} (part : isNumberPart c = true) :
    isBlank c = false ∧ c ≠ '\\' := by
  refine ⟨not_blank_of (p := isNumberPart) (by decide) part, ?_⟩
  rintro rfl
  cases part

theorem solid_namePart {c : Char} (part : isNamePart c = true) : isBlank c = false ∧ c ≠ '\\' :=
  ⟨isNamePart_not_blank part, ne_of_isNamePart part (by decide)⟩

theorem solid_mark (m : Mark) : ∀ c ∈ m.chars, isBlank c = false ∧ c ≠ '\\' := by
  have all : m.chars.all (fun c => !isBlank c && c != '\\') = true := by
    cases m <;> decide
  intro c there
  simpa using List.all_eq_true.1 all c there

/-- How a token of each kind is written. -/
inductive Wording : TokenKind → List Char → Prop
  | text {quote : Char} {body : List Char} (opens : quote = '"' ∨ quote = '\'')
      (absent : quote ∉ body) (one : '\n' ∉ body) : Wording .text (quote :: (body ++ [quote]))
  | number {cs : List Char} (some' : cs ≠ []) (parts : ∀ c ∈ cs, isNumberPart c = true) :
      Wording .number cs
  | name {cs : List Char} (some' : cs ≠ []) (parts : ∀ c ∈ cs, isNamePart c = true) :
      Wording (.name (String.ofList cs)) cs
  | mark (m : Mark) : Wording (.mark m) m.chars

/-- **A token is taken as it is written.** -/
theorem wording_of_lexeme {c : Char} {rest : List Char} {kind : TokenKind} {n : Nat}
    (read : lexeme c rest = .ok (kind, n)) : Wording kind (c :: rest.take n) := by
  unfold lexeme at read
  split at read
  · rename_i quote
    unfold textLexeme at read
    split at read
    · rename_i body after found
      split at read
      · cases read
      · rename_i one
        obtain ⟨rfl, rfl⟩ := Prod.mk.inj (Except.ok.inj read)
        obtain ⟨d, rfl, here, free⟩ := splitFirst?_eq_some found
        obtain rfl := of_decide_eq_true here
        rw [List.take_length_add_append]
        exact .text quote (fun there => absurd rfl (of_decide_eq_false (free d there))) one
    · cases read
  split at read
  · rename_i digit
    obtain ⟨rfl, rfl⟩ := Prod.mk.inj (Except.ok.inj read)
    refine .number (List.cons_ne_nil _ _) fun d there => ?_
    have whole := numberPart_number (c :: rest)
    cases size : numberLength (c :: rest) with
    | zero =>
        rw [size] at there
        rw [List.mem_singleton.1 there]
        rcases digit with digit | ⟨rfl, _⟩
        · exact numberPart_of_digit digit
        · rfl
    | succ k =>
        rw [size] at there whole
        exact whole d there
  split at read
  · unfold nameLexeme at read
    split at read
    · rename_i part
      obtain ⟨rfl, rfl⟩ := Prod.mk.inj (Except.ok.inj read)
      rw [take_takeWhile]
      refine .name (List.cons_ne_nil _ _) fun d there => ?_
      rcases List.mem_cons.1 there with rfl | there
      · exact part
      · exact mem_takeWhile there
    · cases read
  · unfold markLexeme at read
    split at read
    · rename_i m found
      obtain ⟨rfl, rfl⟩ := Prod.mk.inj (Except.ok.inj read)
      have starts := List.find?_some found
      obtain ⟨behind, shape⟩ := List.isPrefixOf_iff_prefix.1 starts
      have same : c :: rest.take (m.chars.length - 1) = m.chars := by
        cases m <;> (obtain ⟨rfl, rfl⟩ := List.cons.inj shape; rfl)
      rw [same]
      exact .mark m
    · cases read

section Wording

variable {kind : TokenKind} {cs : List Char}

theorem Wording.not_layout (wording : Wording kind cs) : kind.isLayout = false := by
  cases wording <;> rfl

/-- A token stands on one line. -/
theorem Wording.one (wording : Wording kind cs) : '\n' ∉ cs := by
  intro there
  cases wording with
  | text opens _ one =>
      simp only [List.mem_cons, List.mem_append, List.not_mem_nil, or_false] at there
      rcases there with rfl | inside | rfl
      · rcases opens with same | same <;> cases same
      · exact one inside
      · rcases opens with same | same <;> cases same
  | number _ parts => exact absurd (parts _ there) (by decide)
  | name _ parts => exact plain_namePart (parts _ there) (by decide)
  | mark m => cases m <;> exact absurd there (by decide)

/-- **A token is a piece of its line.** -/
theorem Wording.body {depth next : Nat} (wording : Wording kind cs)
    (turns : kind.Turns depth next) : Body depth cs next := by
  cases wording with
  | text opens absent one =>
      obtain rfl : next = depth := turns
      exact .text opens absent one .nil
  | number _ parts =>
      obtain rfl : next = depth := turns
      exact body_plain fun d there => plain_of (p := isNumberPart) (by decide) (parts d there)
  | name _ parts =>
      obtain rfl : next = depth := turns
      exact body_plain fun d there => plain_namePart (parts d there)
  | mark => exact body_mark turns

theorem Wording.tight (wording : Wording kind cs) : Tight cs := by
  cases wording with
  | @text quote body opens =>
      have solid : isBlank quote = false ∧ quote ≠ '\\' := by
        rcases opens with rfl | rfl <;> decide
      refine ⟨⟨quote, rfl, solid⟩, fun c ends => ?_⟩
      rw [← List.cons_append, List.getLast?_concat] at ends
      exact Option.some.inj ends ▸ solid.1
  | number some' parts => exact tight_of_all some' fun d there => solid_numberPart (parts d there)
  | name some' parts => exact tight_of_all some' fun d there => solid_namePart (parts d there)
  | mark m => exact tight_of_all (by cases m <;> exact List.cons_ne_nil _ _) (solid_mark m)

theorem Wording.isName {name : String} (wording : Wording (.name name) cs) :
    IsName name.toList := by
  cases wording with
  | name some' parts =>
      rw [String.toList_ofList]
      exact ⟨some', parts⟩

end Wording

/-! ## The scanner -/

theorem body_continuation {slash : List Char} (is : slash ∈ continuations) {depth : Nat} :
    Body depth slash depth := by
  simp only [continuations, List.mem_cons, List.not_mem_nil, or_false] at is
  rcases is with rfl | rfl
  · exact .continued .nil
  · exact .continuedReturn .nil

theorem lexes_finish (source before : List Char) {s : LexState} {ts : List Token}
    (finished : finish s = .ok ts) : s.depth = 0 ∧ Lexes source before 0 ts := by
  have layout := places_of_finish finished
  obtain ⟨closed, rfl⟩ := finish_eq_ok finished
  refine ⟨closed, lexes_layout (fun t there => ?_) (.last rfl)⟩
  obtain ⟨kind, dark, _, rfl⟩ := layout t (List.mem_append_left _ there)
  exact dark

theorem layout_of_levelChange {cursor : Cursor} {width : Nat} {widths widths' : List Nat}
    {tokens : List Token} (change : LevelChange cursor width widths widths' tokens) :
    ∀ t ∈ tokens, t.kind.isLayout = true := by
  intro t there
  obtain ⟨kind, level, rfl⟩ := change.places t there
  exact isLayout_of_isLevel level

/-- What the scanner yields from a state: at the start of a line the place does not
matter, as nothing there belongs to a logical line. -/
def Yields (source before : List Char) (s : LexState) (ts : List Token) : Prop :=
  if s.lineStart then ∃ other, Lexes source other 0 ts else Lexes source before s.depth ts

theorem Yields.somewhere {source before : List Char} {s : LexState} {ts : List Token}
    (yields : Yields source before s ts) (closed : s.depth = 0) :
    ∃ other, Lexes source other 0 ts := by
  unfold Yields at yields
  split at yields
  · exact yields
  · exact ⟨before, closed ▸ yields⟩

/-- Inside a line the place matters. -/
theorem yields_inside {source before : List Char} {s : LexState} {ts : List Token}
    (inside : ¬ s.AtLine) (closed : s.lineStart = true → s.depth = 0) :
    s.lineStart = false ∧ (Yields source before s ts ↔ Lexes source before s.depth ts) := by
  have dark : s.lineStart = false := by
    cases starts : s.lineStart with
    | false => rfl
    | true => exact absurd ⟨starts, closed starts⟩ inside
  exact ⟨dark, by rw [Yields, dark, if_neg Bool.false_ne_true]⟩

/-- What is skipped inside a line. -/
theorem yields_skipped {source before gap : List Char} {s : LexState} {cursor : Cursor}
    {ts : List Token} (inside : ¬ s.AtLine) (closed : s.lineStart = true → s.depth = 0)
    (skipped : Body s.depth gap s.depth)
    (onward : Yields source (before ++ gap) { s with cursor } ts) : Yields source before s ts := by
  obtain ⟨dark, lexes⟩ := yields_inside inside closed
  rw [Yields, if_neg (by simp [dark])] at onward
  exact lexes.2 (onward.widen skipped)

/-- **The scanner places every token in the source.** -/
theorem yields_of_scan {source before : List Char} {s : LexState} {cs : List Char}
    {ts : List Token} (shape : source = before ++ cs) (place : s.cursor.offset = byteLength before)
    (closed : s.lineStart = true → s.depth = 0) (scanned : scan s cs = .ok ts) :
    Yields source before s ts := by
  refine scan_induction (motive := fun s cs ts => ∀ before, source = before ++ cs →
    s.cursor.offset = byteLength before → (s.lineStart = true → s.depth = 0) →
      Yields source before s ts) ?_ ?_ scanned before shape place closed
  · intro s ts finished before _ _ closed
    obtain ⟨depth, lexes⟩ := lexes_finish source before finished
    unfold Yields
    split
    · exact ⟨before, lexes⟩
    · rwa [depth]
  · intro s s' piece left tokens more turn _ ih before shape place closed
    have place' : s'.cursor.offset = byteLength (before ++ piece) := by
      rw [turn.offset, place, Text.byteLength_append]
    replace ih := ih (before ++ piece) (by rw [List.append_assoc, shape]) place'
    cases turn with
    | blankLine starts | lastBlankLine starts =>
        rw [Yields, if_pos starts.1]
        exact (ih closed).somewhere starts.2
    | level starts blanks solid text changed =>
        obtain ⟨other, lexes⟩ := (ih fun starts => by cases starts).somewhere starts.2
        rw [Yields, if_pos starts.1]
        exact ⟨other, lexes_layout (layout_of_levelChange (levelChange_of_ok changed)) lexes⟩
    | lineEnd inside outside =>
        obtain ⟨other, lexes⟩ := (ih fun _ => outside).somewhere outside
        refine (yields_inside inside closed).2.2 ?_
        rw [outside]
        exact .layout rfl lexes
    | innerEnd inside opened =>
        exact yields_skipped inside closed (.newline (by omega) .nil) (ih closed)
    | continued inside is =>
        exact yields_skipped inside closed (body_continuation is) (ih closed)
    | comment inside => exact yields_skipped inside closed .comment (ih closed)
    | @blank c left inside is =>
        have plain : c ∉ lineMarks := by rcases is with rfl | rfl | rfl <;> decide
        exact yields_skipped inside closed (.plain plain .nil) (ih closed)
    | @token c rest kind n depth inside solid read after =>
        obtain ⟨dark, lexes⟩ := yields_inside inside closed
        have onward := ih fun starts => absurd starts (by simp [dark])
        rw [Yields, if_neg (by simp [dark])] at onward
        have wording := wording_of_lexeme read
        have turns := turns_of_depth after
        have whole : source = before ++ [] ++ c :: rest.take n ++ rest.drop n := by simp [shape]
        rw [← List.append_nil before] at place place' onward
        refine lexes.2 (.token whole .nil (wording.body turns) turns place place'
          wording.not_layout ?_ wording.tight onward)
        rintro name rfl
        exact wording.isName

/-- The scanner places the tokens of a whole source. -/
theorem lexes_of_tokenize {source : String} {ts : List Token} (cut : tokenize source = .ok ts) :
    ∃ before, Lexes source.toList before 0 ts :=
  have yields : Yields source.toList [] {} ts :=
    yields_of_scan rfl rfl (fun _ => rfl) cut
  yields.somewhere rfl

end PulseSequencer.Ppp
