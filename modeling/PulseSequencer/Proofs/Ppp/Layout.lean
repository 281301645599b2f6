import PulseSequencer.Proofs.Ppp.Spans

/-
# PulseSequencer.Proofs.Ppp.Layout -- lines that are read as they were laid out

A source is laid out in lines of pieces, each behind as many blanks as its depth calls for.
Its tokens are those of the pieces, with indents and dedents where the depth changes:
`flat_of_lines`.
-/

namespace PulseSequencer.Ppp

open Formula (startsName)
open Text (byteLength)

set_option autoImplicit false

/-! ## Pieces of a line -/

/-- A word, a mark, a blank, or the text of a formula. -/
inductive Piece where
  | word (s : String)
  | mark (m : Mark)
  | blank
  | formula (v : SourceFormula)

namespace Piece

def chars : Piece → List Char
  | .word s => s.toList
  | .mark m => m.chars
  | .blank => [' ']
  | .formula v => v.text.toList

/-- A piece that the scanner can read back. -/
def Readable : Piece → Prop
  | .word s => Formula.IsWord s
  | .formula v => v.Printable
  | .mark _ | .blank => True

/-- Which piece, if any, can stand behind a piece without prolonging it. -/
def fits : Piece → Option Piece → Bool
  | .blank, _ => true
  | .word _, none | .word _, some .blank | .word _, some (.mark _) => true
  | .mark _, none | .mark _, some .blank | .mark _, some (.word _) => true
  | .mark m, _ => m.prolongers.isEmpty
  | .formula _, none => true
  | .formula _, some (.mark m) => m == .comma || m == .colon || m == .closeParen
  | _, _ => false

/-- What a piece makes of the number of open brackets. -/
def Turns (depth next : Nat) : Piece → Prop
  | .mark m => (TokenKind.mark m).Turns depth next
  | _ => next = depth

end Piece

/-- Pieces that can be read one after the other and leave no bracket open. -/
def Laid : Nat → List Piece → Prop
  | depth, [] => depth = 0
  | depth, p :: rest =>
      p.Readable ∧ p.fits rest.head? = true ∧ ∃ next, p.Turns depth next ∧ Laid next rest

theorem Laid.first {depth : Nat} {pieces : List Piece} (laid : Laid depth pieces) :
    ∀ p ∈ pieces.head?, p.Readable := by
  intro p there
  obtain ⟨rest, rfl⟩ := List.head?_eq_some_iff.1 there
  exact laid.1

/-- The tokens of pieces. -/
inductive Spells (src : Source) : List Piece → List Token → Prop
  | nil : Spells src [] []
  | blank {ps : List Piece} {ts : List Token} (onward : Spells src ps ts) :
      Spells src (.blank :: ps) ts
  | word {s : String} {t : Token} {ps : List Piece} {ts : List Token} (is : t.kind = .name s)
      (onward : Spells src ps ts) : Spells src (.word s :: ps) (t :: ts)
  | mark {m : Mark} {t : Token} {ps : List Piece} {ts : List Token} (is : t.kind = .mark m)
      (onward : Spells src ps ts) : Spells src (.mark m :: ps) (t :: ts)
  | formula {v : SourceFormula} {toks : List Token} {ps : List Piece} {ts : List Token}
      (printable : v.Printable) (is : FormulaTokens src v toks) (onward : Spells src ps ts) :
      Spells src (.formula v :: ps) (toks ++ ts)

section Pieces

variable {src : Source} {before tail : List Char} {pieces : List Piece} {d : Char}
  {widths : List Nat} {Q : List Token → Prop}

/-- The text of pieces at the end of a line, and what follows it. -/
def endOfLine (pieces : List Piece) (tail : List Char) : List Char :=
  pieces.flatMap Piece.chars ++ '\n' :: tail

theorem endOfLine_cons (p : Piece) :
    endOfLine (p :: pieces) tail = p.chars ++ endOfLine pieces tail := by
  rw [endOfLine, List.flatMap_cons, List.append_assoc, endOfLine]

theorem solid_word {c : Char} (starts : startsName c = true) : c ∉ skipped :=
  fun there => absurd starts (by
    rw [eq_false_of_mem (p := startsName) (by decide) there]
    exact Bool.false_ne_true)

theorem front_mark (m : Mark) : ∃ c cs, m.chars = c :: cs ∧ c ∉ skipped ∧ isNamePart c = false := by
  cases m <;> exact ⟨_, _, rfl, by decide, by decide⟩

theorem prolongers_mark (m : Mark) : ∀ d ∈ m.prolongers, d ∈ ['=', '<', '>', '*'] := by
  have all : m.prolongers.all (fun d => decide (d ∈ ['=', '<', '>', '*'])) = true := by
    cases m <;> decide
  exact fun d there => of_decide_eq_true (List.all_eq_true.1 all d there)

/-- A name ends in front of what can stand behind a word. -/
theorem not_namePart_of_fits {s : String} (fits : (Piece.word s).fits pieces.head? = true)
    (next : (endOfLine pieces tail).head? = some d) : isNamePart d = false := by
  cases pieces with
  | nil =>
      obtain rfl := Option.some.inj next
      decide
  | cons p rest =>
      rw [endOfLine_cons] at next
      cases p with
      | blank =>
          obtain rfl := Option.some.inj next
          decide
      | mark m =>
          obtain ⟨c, cs, shape, _, other⟩ := front_mark m
          rw [Piece.chars, shape] at next
          exact Option.some.inj next ▸ other
      | word | formula => cases fits

theorem not_prolonger_of_fits {m : Mark} (readable : ∀ p ∈ pieces.head?, p.Readable)
    (fits : (Piece.mark m).fits pieces.head? = true)
    (next : (endOfLine pieces tail).head? = some d) : d ∉ m.prolongers := by
  intro prolongs
  have other := prolongers_mark m d prolongs
  cases pieces with
  | nil =>
      obtain rfl := Option.some.inj next
      exact absurd other (by decide)
  | cons p rest =>
      rw [endOfLine_cons] at next
      cases p with
      | blank =>
          obtain rfl := Option.some.inj next
          exact absurd other (by decide)
      | word s =>
          obtain ⟨c, cs, shape, starts, _⟩ := readable _ rfl
          rw [Piece.chars, shape] at next
          obtain rfl := Option.some.inj next
          rw [eq_false_of_mem (p := startsName) (by decide) other] at starts
          cases starts
      | mark | formula =>
          rw [List.isEmpty_iff.1 fits] at prolongs
          exact absurd prolongs List.not_mem_nil

/-- A formula ends in front of what can stand behind it. -/
theorem stopped_of_fits {v : SourceFormula} (fits : (Piece.formula v).fits pieces.head? = true) :
    Stopped (endOfLine pieces tail) := by
  intro d next
  cases pieces with
  | nil =>
      obtain rfl := Option.some.inj next
      decide
  | cons p rest =>
      rw [endOfLine_cons] at next
      cases p with
      | mark m =>
          have known : (m = .comma ∨ m = .colon) ∨ m = .closeParen := by
            simpa [Piece.fits] using fits
          rcases known with (rfl | rfl) | rfl <;>
            (obtain rfl := Option.some.inj next; decide)
      | blank | word | formula => cases fits

theorem lexeme_of_word {s : String} {c : Char} {cs rest : List Char} (shape : s.toList = c :: cs)
    (starts : startsName c = true) (parts : ∀ d ∈ c :: cs, isNamePart d = true)
    (ends : ∀ d, rest.head? = some d → isNamePart d = false) :
    lexeme c (cs ++ rest) = .ok (.name s, cs.length) := by
  obtain ⟨part, behind⟩ := List.forall_mem_cons.1 parts
  rw [lexeme_of_startsName starts, nameLexeme, if_pos part]
  dsimp only
  rw [Text.takeWhile_append_stop behind ends, ← shape, String.ofList_toList]

theorem depthAfterToken_mark {m : Mark} {depth next : Nat} (turns : (Piece.mark m).Turns depth next)
    (cursor : Cursor) : depthAfterToken cursor depth (.mark m) = .ok next := by
  show depthAfter cursor depth m = .ok next
  rw [Piece.Turns, TokenKind.Turns] at turns
  unfold depthAfter
  split at turns
  · rename_i opens
    rw [if_pos opens, turns]
  · rename_i noOpening
    rw [if_neg noOpening]
    split at turns
    · rename_i closes
      rw [if_pos closes, turns]
    · rename_i noClosing
      rw [if_neg noClosing, turns]

/-- A piece that is a single token. -/
theorem cuts_piece {depth next : Nat} {c : Char} {cs rest : List Char} {kind : TokenKind}
    (solid : c ∉ skipped) (read : lexeme c (cs ++ rest) = .ok (kind, cs.length))
    (after : ∀ cursor, depthAfterToken cursor depth kind = .ok next)
    (onward : Cuts (before ++ c :: cs) next widths rest Q) :
    Cuts before depth widths (c :: cs ++ rest) fun ts =>
      ∃ t ts', ts = t :: ts' ∧ t.kind = kind ∧ Q ts' := by
  have onward' : Cuts (before ++ c :: (cs ++ rest).take cs.length) next widths
      ((cs ++ rest).drop cs.length) Q := by rwa [List.take_left, List.drop_left]
  refine (cuts_token solid read after onward').imp ?_
  rintro _ ⟨t, ts, rfl, taken, holds⟩
  exact ⟨t, ts, rfl, taken.is, holds⟩

/-- **The tokens of a line are those of its pieces.** -/
theorem cuts_pieces {depth : Nat} (laid : Laid depth pieces)
    (place : src.chars = before ++ endOfLine pieces tail)
    (onward : Cuts (before ++ pieces.flatMap Piece.chars) 0 widths ('\n' :: tail) Q) :
    Cuts before depth widths (endOfLine pieces tail) fun ts =>
      ∃ toks ts', ts = toks ++ ts' ∧ Spells src pieces toks ∧ Q ts' := by
  induction pieces generalizing before depth with
  | nil =>
      obtain rfl := laid
      rw [List.flatMap_nil, List.append_nil] at onward
      exact onward.imp fun ts holds => ⟨[], ts, rfl, .nil, holds⟩
  | cons p rest ih =>
      obtain ⟨readable, fits, next, turns, laid⟩ := laid
      rw [endOfLine_cons] at place ⊢
      rw [List.flatMap_cons, ← List.append_assoc] at onward
      have further := ih laid (by rw [List.append_assoc]; exact place) onward
      cases p with
      | blank =>
          obtain rfl : next = depth := turns
          refine cuts_blank (.inl rfl) (further.imp ?_)
          rintro ts ⟨toks, ts', rfl, spells, holds⟩
          exact ⟨toks, ts', rfl, .blank spells, holds⟩
      | word s =>
          obtain rfl : next = depth := turns
          obtain ⟨c, cs, shape, starts, part, parts⟩ := readable
          have parts' : ∀ d ∈ c :: cs, isNamePart d = true := by
            rw [← funext isNamePart_formula]
            exact List.forall_mem_cons.2 ⟨part, parts⟩
          have read : lexeme c (cs ++ endOfLine rest tail) = .ok (.name s, cs.length) :=
            lexeme_of_word shape starts parts' fun d => not_namePart_of_fits fits
          rw [Piece.chars, shape] at further ⊢
          refine (cuts_piece (solid_word starts) read (fun _ => rfl) further).imp ?_
          rintro _ ⟨t, _, rfl, is, toks, ts', rfl, spells, holds⟩
          exact ⟨t :: toks, ts', rfl, .word is spells, holds⟩
      | mark m =>
          obtain ⟨c, cs, shape, solid, _⟩ := front_mark m
          have read : lexeme c (cs ++ endOfLine rest tail) = .ok (.mark m, cs.length) := by
            rw [lexeme_of_mark shape]
            exact markLexeme_of_chars shape fun d => not_prolonger_of_fits laid.first fits
          rw [Piece.chars, shape] at further ⊢
          refine (cuts_piece solid read (depthAfterToken_mark turns) further).imp ?_
          rintro _ ⟨t, _, rfl, is, toks, ts', rfl, spells, holds⟩
          exact ⟨t :: toks, ts', rfl, .mark is spells, holds⟩
      | formula v =>
          obtain rfl : next = depth := turns
          refine (cuts_sourceFormula readable (by rw [List.append_assoc]; exact place)
            (stopped_of_fits fits) further).imp ?_
          rintro _ ⟨here, _, rfl, is, toks, ts', rfl, spells, holds⟩
          exact ⟨here ++ toks, ts', (List.append_assoc ..).symm, .formula readable is spells, holds⟩

end Pieces

/-! ## Lines -/

/-- A line: how deep it stands, the word that it starts with, and what follows the word. -/
structure Line where
  depth : Nat
  head : String
  rest : List Piece

namespace Line

def pieces (l : Line) : List Piece := .word l.head :: l.rest

/-- A line behind its blanks, so many for each level. -/
def chars (width : Nat) (l : Line) : List Char :=
  List.replicate (width * l.depth) ' ' ++ endOfLine l.pieces []

end Line

/-- The text of lines. -/
def textOf (width : Nat) (lines : List Line) : List Char := lines.flatMap (Line.chars width)

/-- No line stands more than one level deeper than the one in front of it. -/
def Nested : Nat → List Line → Prop
  | _, [] => True
  | depth, l :: rest => l.depth ≤ depth + 1 ∧ Nested l.depth rest

/-- The tokens of lines behind a line of some depth: one indent in front of a deeper line,
and as many dedents in front of another as levels end there. -/
inductive Flat (src : Source) : Nat → List Line → List Token → Prop
  | eof {t : Token} (is : t.kind = .eof) : Flat src 0 [] [t]
  | line {depth : Nat} {l : Line} {lines : List Line} {toks ts : List Token} {t : Token}
      (same : l.depth = depth) (spells : Spells src l.pieces toks) (is : t.kind = .newline)
      (onward : Flat src depth lines ts) : Flat src depth (l :: lines) (toks ++ t :: ts)
  | indent {depth : Nat} {l : Line} {lines : List Line} {ts : List Token} {t : Token}
      (deeper : l.depth = depth + 1) (is : t.kind = .indent)
      (onward : Flat src (depth + 1) (l :: lines) ts) : Flat src depth (l :: lines) (t :: ts)
  | dedent {depth : Nat} {lines : List Line} {ts : List Token} {t : Token}
      (outer : ∀ l ∈ lines.head?, l.depth ≤ depth) (is : t.kind = .dedent)
      (onward : Flat src depth lines ts) : Flat src (depth + 1) lines (t :: ts)

/-- The widths of the levels that are open at some depth. -/
def levels (width : Nat) : Nat → List Nat
  | 0 => [0]
  | depth + 1 => width * (depth + 1) :: levels width depth

section Lines

variable {src : Source} {before : List Char} {lines : List Line} {width depth : Nat}

theorem headD_levels (width depth : Nat) : (levels width depth).headD 0 = width * depth := by
  cases depth with
  | zero => exact (Nat.mul_zero width).symm
  | succ depth => rfl

theorem length_levels (width depth : Nat) : (levels width depth).length = depth + 1 := by
  induction depth with
  | zero => rfl
  | succ depth ih => rw [levels, List.length_cons, ih]

/-- The levels deeper than a line are closed. -/
theorem closeTo_levels (wide : 0 < width) {depth outer : Nat} (le : outer ≤ depth) :
    closeTo (width * outer) (levels width depth) = (depth - outer, levels width outer) := by
  induction depth with
  | zero =>
      obtain rfl : outer = 0 := by omega
      rfl
  | succ depth ih =>
      rw [levels, closeTo]
      rcases Nat.lt_or_ge depth outer with here | deeper
      · obtain rfl : outer = depth + 1 := by omega
        rw [if_neg (Nat.lt_irrefl _), Nat.sub_self, levels]
      · rw [if_pos (Nat.mul_lt_mul_of_pos_left (by omega) wide), ih deeper]
        dsimp only
        rw [Nat.succ_sub deeper]

/-- Dedents in front of a line that ends so many levels. -/
theorem flat_dedents {cursor : Cursor} {outer : Nat} {ts : List Token} (le : outer ≤ depth)
    (above : ∀ l ∈ lines.head?, l.depth ≤ outer) (flat : Flat src outer lines ts) :
    Flat src depth lines (List.replicate (depth - outer) (cursor.emptyToken .dedent) ++ ts) := by
  induction depth with
  | zero =>
      obtain rfl : outer = 0 := by omega
      exact flat
  | succ depth ih =>
      rcases Nat.lt_or_ge depth outer with here | deeper
      · obtain rfl : outer = depth + 1 := by omega
        rw [Nat.sub_self]
        exact flat
      · rw [Nat.succ_sub deeper, List.replicate_succ]
        exact .dedent (fun l first => Nat.le_trans (above l first) deeper) rfl (ih deeper)

theorem indentation_blanks (k width : Nat) :
    (indentation width (List.replicate k ' ')).1 = width + k := by
  induction k generalizing width with
  | zero => rfl
  | succ k ih =>
      rw [List.replicate_succ, indentation]
      dsimp only
      rw [ih, Nat.add_assoc, Nat.add_comm 1 k]

/-- The tokens that the scanner puts in front of a line. -/
def levelTokens (depth outer : Nat) (cursor : Cursor) : List Token :=
  if outer = depth + 1 then [cursor.emptyToken .indent]
  else List.replicate (depth - outer) (cursor.emptyToken .dedent)

theorem changeLevel_levels (wide : 0 < width) {outer : Nat} (le : outer ≤ depth + 1)
    (cursor : Cursor) : changeLevel cursor (width * outer) (levels width depth) =
      .ok (levels width outer, levelTokens depth outer cursor) := by
  unfold changeLevel levelTokens
  rw [headD_levels]
  split
  · rename_i deeper
    have above : depth < outer := Nat.lt_of_mul_lt_mul_left deeper
    obtain rfl : outer = depth + 1 := by omega
    rw [if_pos rfl, levels]
  · rename_i notDeeper
    have below : outer ≤ depth := by
      refine Nat.le_of_not_lt fun above => notDeeper ?_
      exact Nat.mul_lt_mul_of_pos_left above wide
    rw [if_neg (by omega), closeTo_levels wide below]
    dsimp only
    rw [headD_levels, if_pos rfl]

theorem flat_levelTokens {l : Line} {cursor : Cursor} {ts : List Token} (le : l.depth ≤ depth + 1)
    (flat : Flat src l.depth (l :: lines) ts) :
    Flat src depth (l :: lines) (levelTokens depth l.depth cursor ++ ts) := by
  unfold levelTokens
  split
  · rename_i deeper
    exact .indent deeper rfl (deeper ▸ flat)
  · refine flat_dedents (by omega) (fun l' first => ?_) flat
    obtain rfl := Option.some.inj first
    exact Nat.le_refl _

/-- At the start of a line the scanner puts tokens for the levels, and goes on inside it. -/
theorem starts_line {c : Char} {rest : List Char} {k : Nat} {widths widths' : List Nat}
    {tokens : Cursor → List Token} {Q : List Token → Prop} (solid : c ∉ skipped)
    (changes : ∀ cursor, changeLevel cursor k widths = .ok (widths', tokens cursor))
    (onward : Cuts (before ++ List.replicate k ' ') 0 widths' (c :: rest) Q) :
    Starts before widths (List.replicate k ' ' ++ c :: rest) fun ts =>
      ∃ cursor more, ts = tokens cursor ++ more ∧ Q more := by
  intro s place closed open' starts outside
  simp only [skipped, List.mem_cons, List.not_mem_nil, or_false, not_or] at solid
  have blanks : ∀ d ∈ List.replicate k ' ', isIndent d = true := by
    intro d there
    rw [List.eq_of_mem_replicate there]
    rfl
  have changed : changeLevel (s.cursor.skip (List.replicate k ' ').length)
      (indentation 0 (List.replicate k ' ')).1 s.widths =
        .ok (widths', tokens (s.cursor.skip k)) := by
    rw [indentation_blanks, Nat.zero_add, List.length_replicate, open', changes]
  have turn := Turn.level ⟨starts, closed⟩ blanks (by simp [isIndent, solid])
    (show isBlankLine (c :: rest) = false by simp [isBlankLine, solid]) changed
  have bytes := turn.offset
  rw [place, ← Text.byteLength_append] at bytes
  obtain ⟨ts, scanned, holds⟩ := onward _ bytes closed rfl rfl
  refine ⟨tokens (s.cursor.skip k) ++ ts, ?_, _, ts, rfl, holds⟩
  rw [scan_of_turn turn, scanned]
  rfl

theorem textOf_cons (l : Line) : textOf width (l :: lines) =
    List.replicate (width * l.depth) ' ' ++ endOfLine l.pieces (textOf width lines) := by
  rw [textOf, List.flatMap_cons, Line.chars, List.append_assoc, endOfLine, endOfLine,
    List.append_assoc]
  rfl

/-- **The tokens of a source are those of its lines.** -/
theorem starts_lines (wide : 0 < width) (laid : ∀ l ∈ lines, Laid 0 l.pieces)
    (nested : Nested depth lines) (place : src.chars = before ++ textOf width lines) :
    Starts before (levels width depth) (textOf width lines) (Flat src depth lines) := by
  induction lines generalizing before depth with
  | nil =>
      intro s _ closed open' _ outside
      refine ⟨List.replicate (depth - 0) (s.cursor.emptyToken .dedent) ++
        [s.cursor.emptyToken .eof], ?_, flat_dedents (Nat.zero_le _) (fun _ none' => by cases none')
          (.eof rfl)⟩
      rw [textOf, List.flatMap_nil, scan, finish, closed, outside, open', length_levels]
      rfl
  | cons l lines ih =>
      obtain ⟨here, others⟩ := List.forall_mem_cons.1 laid
      obtain ⟨le, nested⟩ := nested
      rw [textOf_cons] at place ⊢
      obtain ⟨c, cs, shape, starts, _⟩ := here.1
      rw [← List.append_assoc] at place
      have behind : src.chars = before ++ List.replicate (width * l.depth) ' ' ++
          l.pieces.flatMap Piece.chars ++ ['\n'] ++ textOf width lines := by
        rw [place, endOfLine, List.append_assoc _ ['\n'], ← List.append_assoc]
        rfl
      have inside := cuts_pieces here place (cuts_newline (ih others nested behind))
      have front : endOfLine l.pieces (textOf width lines) =
          c :: (cs ++ endOfLine l.rest (textOf width lines)) := by
        rw [Line.pieces, endOfLine_cons, Piece.chars, shape]
        rfl
      rw [front] at inside ⊢
      refine (starts_line (solid_word starts) (changeLevel_levels wide le) inside).imp ?_
      rintro _ ⟨cursor, _, rfl, toks, _, rfl, spells, t, ts, rfl, is, flat⟩
      exact flat_levelTokens le (.line rfl spells is flat)

/-- The scanner takes the lines of a whole source. -/
theorem flat_of_lines (wide : 0 < width) (laid : ∀ l ∈ lines, Laid 0 l.pieces)
    (nested : Nested 0 lines) : ∃ ts, tokenize (String.ofList (textOf width lines)) = .ok ts ∧
      Flat (Source.ofText (String.ofList (textOf width lines))) 0 lines ts := by
  have place : (Source.ofText (String.ofList (textOf width lines))).chars =
      [] ++ textOf width lines := String.toList_ofList
  obtain ⟨ts, scanned, flat⟩ := starts_lines wide laid nested place {} rfl rfl rfl rfl rfl
  exact ⟨ts, by rw [tokenize, String.toList_ofList, scanned], flat⟩

end Lines

/-! ## Taking lines apart -/

section Flat

variable {src : Source} {depth : Nat} {l : Line} {lines : List Line} {ts : List Token}

theorem Flat.ne_nil (flat : Flat src depth lines ts) : ts ≠ [] := by
  cases flat with
  | line => exact List.append_ne_nil_of_right_ne_nil _ (List.cons_ne_nil _ _)
  | eof | indent | dedent => exact List.cons_ne_nil _ _

/-- The tokens of a line that stands as deep as the one in front of it. -/
theorem Flat.cons (flat : Flat src depth (l :: lines) ts) (same : l.depth = depth) :
    ∃ t toks newline ts', ts = t :: (toks ++ newline :: ts') ∧ t.kind = .name l.head ∧
      Spells src l.rest toks ∧ newline.kind = .newline ∧ Flat src depth lines ts' := by
  cases flat with
  | line _ spells is onward =>
      cases spells with
      | word is' spells => exact ⟨_, _, _, _, rfl, is', spells, is, onward⟩
  | indent deeper => omega
  | dedent outer =>
      have bound := outer l rfl
      omega

/-- The indent in front of a deeper line. -/
theorem Flat.deeper (flat : Flat src depth (l :: lines) ts) (deeper : l.depth = depth + 1) :
    ∃ t ts', ts = t :: ts' ∧ t.kind = .indent ∧ Flat src (depth + 1) (l :: lines) ts' := by
  cases flat with
  | line same => omega
  | indent _ is onward => exact ⟨_, _, rfl, is, onward⟩
  | dedent outer =>
      have bound := outer l rfl
      omega

/-- The dedent in front of lines that do not belong to a level. -/
theorem Flat.outer (flat : Flat src (depth + 1) lines ts)
    (outer : ∀ l ∈ lines.head?, l.depth ≤ depth) :
    ∃ t ts', ts = t :: ts' ∧ t.kind = .dedent ∧ Flat src depth lines ts' := by
  cases flat with
  | line same =>
      have bound := outer _ rfl
      omega
  | indent deeper =>
      have bound := outer _ rfl
      omega
  | dedent _ is onward => exact ⟨_, _, rfl, is, onward⟩

/-- The first token, where no line is deeper. -/
theorem Flat.first (flat : Flat src depth lines ts) (outer : ∀ l ∈ lines.head?, l.depth ≤ depth) :
    ((peek ts).kind = .eof ∧ lines = []) ∨ (peek ts).kind = .dedent ∨
      ∃ l ∈ lines.head?, l.depth = depth ∧ (peek ts).kind = .name l.head := by
  cases flat with
  | eof is => exact .inl ⟨is, rfl⟩
  | line same spells =>
      cases spells with
      | word is => exact .inr (.inr ⟨_, rfl, same, is⟩)
  | indent deeper =>
      have bound := outer _ rfl
      omega
  | dedent _ is => exact .inr (.inl is)

end Flat

end PulseSequencer.Ppp
