import PulseSequencer.Proofs.Ppp.Positions

/-
# PulseSequencer.Proofs.Ppp.Indentation -- levels that open and close

The widths that are open go with the indents and dedents told so far (`Stacked`): they rise
from 0, and there is one for every level and one below.  Only the blanks of a line change them
(`Turn.levels`), and only where no bracket is open and the line is not a continued one.  So the
tokens of a whole source are balanced, every logical line stands at the level of its own
width, and no level changes in the middle of one: `levels_of_tokenize`.
-/

namespace PulseSequencer.Ppp

open PulseSequencer.Text (byteLength byteLength_append)

set_option autoImplicit false

/-! ## Counts of tokens -/

namespace TokenKind

def opensLevel : TokenKind → Bool
  | .indent => true
  | _ => false

def closesLevel : TokenKind → Bool
  | .dedent => true
  | _ => false

def opensBracket : TokenKind → Bool
  | .mark m => m.opens
  | _ => false

def closesBracket : TokenKind → Bool
  | .mark m => m.closes
  | _ => false

end TokenKind

/-- How many tokens are of some kind. -/
def tally (is : TokenKind → Bool) (ts : List Token) : Nat := ts.countP fun t => is t.kind

def indents (ts : List Token) : Nat := tally TokenKind.opensLevel ts

def dedents (ts : List Token) : Nat := tally TokenKind.closesLevel ts

/-- The levels that are open behind some tokens. -/
def nesting (ts : List Token) : Nat := indents ts - dedents ts

section Counts

variable {is : TokenKind → Bool} {a b told tokens ts : List Token} {n : Nat} {t : Token}

@[simp] theorem tally_append : tally is (a ++ b) = tally is a + tally is b :=
  List.countP_append

@[simp] theorem indents_append : indents (a ++ b) = indents a + indents b := tally_append

@[simp] theorem dedents_append : dedents (a ++ b) = dedents a + dedents b := tally_append

theorem tally_singleton : tally is [t] = if is t.kind then 1 else 0 := by
  simp [tally, List.countP_cons]

theorem tally_eq_zero (none' : ∀ t ∈ ts, is t.kind = false) : tally is ts = 0 := by
  refine List.countP_eq_zero.2 fun t there => ?_
  simp [none' t there]

theorem levels_eq_zero (quiet : ∀ t ∈ ts, t.kind.isLevel = false) :
    indents ts = 0 ∧ dedents ts = 0 := by
  have never : ∀ kind : TokenKind, kind.isLevel = false →
      kind.opensLevel = false ∧ kind.closesLevel = false := by
    intro kind quiet
    cases kind <;> first | exact ⟨rfl, rfl⟩ | cases quiet
  exact ⟨tally_eq_zero fun t there => (never _ (quiet t there)).1,
    tally_eq_zero fun t there => (never _ (quiet t there)).2⟩

theorem brackets_eq_zero (layout : ∀ t ∈ ts, t.kind.isLayout = true) :
    tally TokenKind.opensBracket ts = 0 ∧ tally TokenKind.closesBracket ts = 0 := by
  have never : ∀ kind : TokenKind, kind.isLayout = true →
      kind.opensBracket = false ∧ kind.closesBracket = false := by
    intro kind layout
    cases kind <;> first | exact ⟨rfl, rfl⟩ | cases layout
  exact ⟨tally_eq_zero fun t there => (never _ (layout t there)).1,
    tally_eq_zero fun t there => (never _ (layout t there)).2⟩

theorem counts_dedents (c : Cursor) (n : Nat) :
    indents (List.replicate n (c.emptyToken .dedent)) = 0 ∧
      dedents (List.replicate n (c.emptyToken .dedent)) = n := by
  constructor
  · exact tally_eq_zero fun t there => by rw [List.eq_of_mem_replicate there]; rfl
  · simp [dedents, tally, List.countP_replicate, Cursor.emptyToken, TokenKind.closesLevel]

/-- Levels stay open as long as there is room for all that are closed. -/
theorem above_append (above : ∀ p, p <+: a → dedents p ≤ indents p)
    (room : dedents a + dedents b ≤ indents a) : ∀ p, p <+: a ++ b → dedents p ≤ indents p := by
  intro p first
  rcases List.prefix_or_prefix_of_prefix first (List.prefix_append a b) with inside | ⟨q, rfl⟩
  · exact above p inside
  · have few : dedents q ≤ dedents b :=
      ((List.prefix_append_right_inj a).1 first).sublist.countP_le
    rw [dedents_append, indents_append]
    omega

end Counts

/-! ## The widths that are open -/

/-- The widths that are open behind some tokens, innermost first. -/
structure Stacked (told : List Token) (widths : List Nat) : Prop where
  balance : indents told + 1 = dedents told + widths.length
  above : ∀ p, p <+: told → dedents p ≤ indents p
  base : widths.getLast? = some 0
  sorted : widths.Pairwise (· > ·)

section Stacked

variable {told tokens : List Token} {widths widths' : List Nat} {c : Cursor} {width : Nat}

theorem Stacked.start : Stacked [] [0] where
  balance := rfl
  above p first := by
    rw [List.prefix_nil.1 first]
    exact Nat.le_refl _
  base := rfl
  sorted := List.pairwise_singleton _ _

theorem Stacked.append (stacked : Stacked told widths)
    (quiet : ∀ t ∈ tokens, t.kind.isLevel = false) : Stacked (told ++ tokens) widths := by
  obtain ⟨noIndents, noDedents⟩ := levels_eq_zero quiet
  have here := stacked.above told (List.prefix_refl _)
  refine ⟨?_, above_append stacked.above (by omega), stacked.base, stacked.sorted⟩
  rw [indents_append, dedents_append, noIndents, noDedents]
  exact stacked.balance

/-- **What the blanks of a line do keeps the widths in order**, and the line's own is the
innermost one then. -/
theorem Stacked.change (stacked : Stacked told widths)
    (change : LevelChange c width widths widths' tokens) :
    Stacked (told ++ tokens) widths' ∧ widths'.head? = some width := by
  have balance := stacked.balance
  have here := stacked.above told (List.prefix_refl _)
  cases change with
  | opens wider =>
      have counts : indents [c.emptyToken .indent] = 1 ∧ dedents [c.emptyToken .indent] = 0 :=
        ⟨rfl, rfl⟩
      refine ⟨⟨?_, above_append stacked.above (by omega), ?_, ?_⟩, rfl⟩
      · rw [indents_append, dedents_append, List.length_cons]
        omega
      · rw [List.getLast?_cons, stacked.base]
        rfl
      · refine List.pairwise_cons.2 ⟨fun w there => ?_, stacked.sorted⟩
        cases widths with
        | nil => cases there
        | cons first outer =>
            have wider : first < width := wider
            rcases List.mem_cons.1 there with rfl | there
            · exact wider
            · have := (List.pairwise_cons.1 stacked.sorted).1 w there
              omega
  | @closes closed _ wider same =>
      obtain ⟨noIndents, count⟩ := counts_dedents c closed.length
      have base := stacked.base
      -- the outermost width is 0, and so not one that is closed
      have some' : widths' ≠ [] := by
        rintro rfl
        rw [List.append_nil] at base
        have := wider 0 (List.mem_of_getLast? base)
        omega
      have size := List.length_pos_iff.2 some'
      rw [List.length_append] at balance
      refine ⟨⟨?_, above_append stacked.above (by omega), ?_, ?_⟩, ?_⟩
      · rw [indents_append, dedents_append]
        omega
      · rw [List.getLast?_append, List.getLast?_eq_some_getLast some', Option.some_or] at base
        rwa [List.getLast?_eq_some_getLast some']
      · exact (List.pairwise_append.1 stacked.sorted).2.1
      · obtain ⟨w, outer, rfl⟩ := List.exists_cons_of_ne_nil some'
        exact congrArg some same

/-- The innermost width stands in the stack at the depth of the levels. -/
theorem Stacked.position (stacked : Stacked told widths) (inner : widths.head? = some width) :
    widths.reverse[nesting told]? = some width := by
  obtain ⟨outer, rfl⟩ := List.head?_eq_some_iff.1 inner
  have balance := stacked.balance
  have depth : nesting told = outer.length := by
    rw [nesting]
    simp only [List.length_cons] at balance
    omega
  rw [depth, List.reverse_cons, ← List.length_reverse, List.getElem?_concat_length]

end Stacked

section Turns

variable {s s' : LexState} {source read piece left : List Char} {told tokens ts : List Token}

/-- **Only the blanks of a line change the levels.** -/
theorem Turn.levels (turn : Turn s piece left tokens s') :
    (s.AtLine ∧ s'.cursor.line = s.cursor.line ∧
      LevelChange s'.cursor (indentation 0 piece).1 s.widths s'.widths tokens) ∨
    (s'.widths = s.widths ∧ ∀ t ∈ tokens, t.kind.isLevel = false) := by
  cases turn with
  | level starts _ _ _ changed => exact .inl ⟨starts, rfl, levelChange_of_ok changed⟩
  | lineEnd =>
      refine .inr ⟨rfl, fun t there => ?_⟩
      rw [List.mem_singleton.1 there]
      rfl
  | @token c rest kind n depth inside solid read after =>
      refine .inr ⟨rfl, fun t there => ?_⟩
      rw [List.mem_singleton.1 there]
      exact not_isLevel (wording_of_lexeme read).not_layout
  | _ => exact .inr ⟨rfl, fun t none' => absurd none' List.not_mem_nil⟩

theorem Scanned.stacked (reached : Scanned source read told s left) : Stacked told s.widths := by
  induction reached with
  | start => exact .start
  | turn _ turn ih =>
      rcases turn.levels with ⟨_, _, change⟩ | ⟨same, quiet⟩
      · exact (ih.change change).1
      · rw [same]
        exact ih.append quiet

/-- **The levels of a whole source are balanced.** -/
theorem balanced_of_scan (scanned : scan {} source = .ok ts) :
    (∀ p, p <+: ts → dedents p ≤ indents p) ∧ indents ts = dedents ts := by
  obtain ⟨told, s, closing, reached, closed, rfl⟩ := exists_end scanned
  obtain ⟨_, rfl⟩ := finish_eq_ok closed
  have stacked := reached.stacked
  have balance := stacked.balance
  have size : s.widths.length ≠ 0 := by
    intro none'
    have base := stacked.base
    rw [List.length_eq_zero_iff.1 none'] at base
    cases base
  have lineEnd : ∀ t ∈ (if s.inLine then [s.cursor.emptyToken .newline] else []),
      t.kind.isLevel = false := by
    intro t there
    split at there
    · rw [List.mem_singleton.1 there]
      rfl
    · cases there
  have last : indents [s.cursor.emptyToken .eof] = 0 ∧ dedents [s.cursor.emptyToken .eof] = 0 :=
    ⟨rfl, rfl⟩
  obtain ⟨noIndents, noDedents⟩ := levels_eq_zero lineEnd
  obtain ⟨noIndents', count⟩ := counts_dedents s.cursor (s.widths.length - 1)
  refine ⟨above_append stacked.above ?_, ?_⟩
  · simp only [dedents_append]
    omega
  · simp only [dedents_append, indents_append]
    omega

end Turns

/-! ## Where levels change -/

section Places

variable {s s' : LexState} {source read piece left : List Char} {told tokens ts : List Token}
  {t : Token}

/-- A token opens and closes as many brackets as the scanner counts. -/
theorem Turn.brackets (turn : Turn s piece left tokens s') :
    tally TokenKind.opensBracket tokens + s.depth =
      tally TokenKind.closesBracket tokens + s'.depth := by
  cases turn with
  | level _ _ _ _ changed =>
      obtain ⟨opened, closed⟩ := brackets_eq_zero (layout_of_levelChange (levelChange_of_ok changed))
      rw [opened, closed]
  | @token c rest kind n depth inside solid read after =>
      have turns := turns_of_depth after
      rw [tally_singleton, tally_singleton, Cursor.token]
      cases kind with
      | mark m =>
          cases m with
          | openParen | openBracket | openBrace =>
              obtain rfl : depth = s.depth + 1 := turns
              show 1 + s.depth = 0 + (s.depth + 1)
              omega
          | closeParen | closeBracket | closeBrace =>
              have turns : s.depth = depth + 1 := turns
              show 0 + s.depth = 1 + depth
              omega
          | _ => exact congrArg (0 + ·) (Eq.symm turns)
      | _ => exact congrArg (0 + ·) (Eq.symm turns)
  | _ => rfl

/-- The brackets that are open behind some tokens. -/
theorem Scanned.brackets (reached : Scanned source read told s left) :
    tally TokenKind.opensBracket told = tally TokenKind.closesBracket told + s.depth := by
  induction reached with
  | start => rfl
  | turn _ turn ih =>
      have := turn.brackets
      rw [tally_append, tally_append]
      omega

/-- Tokens of the layout behind a place where no bracket is open. -/
theorem outside_append (layout : ∀ t ∈ ts, t.kind.isLayout = true)
    (closed : tally TokenKind.opensBracket told = tally TokenKind.closesBracket told)
    {m after : List Token} (shape : ts = m ++ after) :
    tally TokenKind.opensBracket (told ++ m) = tally TokenKind.closesBracket (told ++ m) := by
  have inside : ∀ t ∈ m, t.kind.isLayout = true := fun t there => layout t (by simp [shape, there])
  obtain ⟨opened, closed'⟩ := brackets_eq_zero inside
  rw [tally_append, tally_append, opened, closed', closed]

/-- **No level changes inside brackets.** -/
theorem outside_of_scan {before after : List Token} (scanned : scan {} source = .ok ts)
    (shape : ts = before ++ t :: after) (level : t.kind.isLevel = true) :
    tally TokenKind.opensBracket before = tally TokenKind.closesBracket before := by
  rcases exists_telling scanned shape with
    ⟨read, told, s, piece, left, tokens, s', m, rest, reached, turn, rfl, here⟩ |
    ⟨told, s, closing, m, rest, reached, closed, rfl, here⟩
  · have brackets := reached.brackets
    rcases turn.levels with ⟨starts, _, change⟩ | ⟨_, quiet⟩
    · rw [starts.2] at brackets
      exact outside_append (layout_of_levelChange change) brackets here
    · have quiet := quiet t (by simp [here])
      rw [level] at quiet
      cases quiet
  · have brackets := reached.brackets
    rw [(finish_eq_ok closed).1] at brackets
    refine outside_append (fun u there => ?_) brackets here
    obtain ⟨kind, layout, _, rfl⟩ := places_of_finish closed u there
    exact layout

/-- A level that a line opens or closes, and not the end of the source. -/
def Token.isOfLine (size : Nat) (t : Token) : Prop :=
  t.kind = .indent ∨ t.kind = .dedent ∧ t.start < size

/-- The first line whose blanks are still to be read. -/
def LexState.nextLine (s : LexState) : Nat := s.cursor.line + if s.lineStart then 0 else 1

theorem Turn.nextLine (turn : Turn s piece left tokens s') : s.nextLine ≤ s'.nextLine := by
  cases turn with
  | level starts => simp [LexState.nextLine, Cursor.skip, starts.1]
  | lineEnd =>
      simp only [LexState.nextLine, Cursor.skipLine, if_true]
      split <;> omega
  | _ =>
      simp only [LexState.nextLine, Cursor.skip, Cursor.skipLine]
      omega

theorem not_isOfLine {size : Nat} (quiet : t.kind.isLevel = false) : ¬t.isOfLine size := by
  rintro (indent | ⟨dedent, _⟩)
  · rw [indent] at quiet
    cases quiet
  · rw [dedent] at quiet
    cases quiet

/-- The levels that are closed at the end stand there. -/
theorem not_isOfLine_of_finish (closed : finish s = .ok ts) :
    ∀ t ∈ ts, ¬t.isOfLine (s.cursor.offset + byteLength []) := by
  intro t there
  obtain ⟨kind, _, noIndent, rfl⟩ := places_of_finish closed t there
  rintro (indent | ⟨_, early⟩)
  · exact noIndent indent
  · exact Nat.lt_irrefl _ early

/-- **Levels change on lines whose blanks are still to be read.** -/
theorem nextLine_le {cs : List Char} (scanned : scan s cs = .ok ts) :
    ∀ t ∈ ts, t.isOfLine (s.cursor.offset + byteLength cs) → s.nextLine ≤ t.position.line := by
  refine scan_induction (motive := fun s cs ts => ∀ t ∈ ts,
    t.isOfLine (s.cursor.offset + byteLength cs) → s.nextLine ≤ t.position.line) ?_ ?_ scanned
  · intro s ts closed t there ofLine
    exact absurd ofLine (not_isOfLine_of_finish closed t there)
  · intro s s' piece left tokens more turn _ ih t there ofLine
    rcases List.mem_append.1 there with here | later
    · rcases turn.levels with ⟨starts, line, change⟩ | ⟨_, quiet⟩
      · obtain ⟨kind, _, rfl⟩ := change.places t here
        rw [LexState.nextLine, if_pos starts.1, ← line]
        exact Nat.le_refl _
      · exact absurd ofLine (not_isOfLine (quiet t here))
    · rw [byteLength_append, ← Nat.add_assoc, ← turn.offset] at ofLine
      exact Nat.le_trans turn.nextLine (ih t later ofLine)

/-- **Behind the blanks of a line, the next token is not that of a level.** -/
theorem first_of_scan {cs : List Char} (scanned : scan s cs = .ok ts)
    (inside : s.lineStart = false) :
    ∃ t more, ts = t :: more ∧ ¬t.isOfLine (s.cursor.offset + byteLength cs) := by
  refine scan_induction (motive := fun s cs ts => s.lineStart = false → ∃ t more,
    ts = t :: more ∧ ¬t.isOfLine (s.cursor.offset + byteLength cs)) ?_ ?_ scanned inside
  · intro s ts closed _
    have some' : ts ≠ [] := by
      obtain ⟨_, rfl⟩ := finish_eq_ok closed
      simp
    obtain ⟨t, more, rfl⟩ := List.exists_cons_of_ne_nil some'
    exact ⟨t, more, rfl, not_isOfLine_of_finish closed t (List.mem_cons_self ..)⟩
  · intro s s' piece left tokens more turn _ ih inside
    have levels := turn.levels
    rw [byteLength_append, ← Nat.add_assoc, ← turn.offset]
    cases turn with
    | blankLine starts | lastBlankLine starts | level starts =>
        rw [starts.1] at inside
        cases inside
    | lineEnd | token =>
        rcases levels with ⟨starts, _⟩ | ⟨_, quiet⟩
        · rw [starts.1] at inside
          cases inside
        · exact ⟨_, more, rfl, not_isOfLine (quiet _ (List.mem_singleton_self _))⟩
    | _ => exact ih inside

/-- The tokens that were told stand on the lines that were read. -/
theorem Scanned.line_le (reached : Scanned source read told s left) :
    ∀ t ∈ told, t.position.line ≤ s.cursor.line := by
  have onward : ∀ (c : Cursor) (cs : List Char), c.line ≤ (c.pass cs).line := by
    intro c cs
    rw [(c.pass_lines cs).1]
    exact Nat.le_add_right _ _
  induction reached with
  | start => exact fun t none' => absurd none' List.not_mem_nil
  | turn _ turn ih =>
      intro t there
      rw [turn.pass]
      rcases List.mem_append.1 there with earlier | here
      · exact Nat.le_trans (ih t earlier) (onward _ _)
      · obtain ⟨a, b, rfl, _, position⟩ := turn.places t here
        rw [position, Cursor.pass_append]
        exact onward _ b

/-- **No level changes on a line that goes on behind a backslash.** -/
theorem line_ne_of_continuation {slash : List Char} (scanned : scan {} source = .ok ts)
    (reached : Scanned source read told s (slash ++ left)) (inside : ¬s.AtLine)
    (is : slash ∈ continuations) :
    ∀ t ∈ ts, t.isOfLine (byteLength source) → t.position.line ≠ s.cursor.line + 1 := by
  have dark := reached.inside inside
  have turn : Turn s slash left [] _ := .continued inside is
  have size : byteLength source = (s.cursor.skipLine slash.length).offset + byteLength left := by
    rw [reached.shape, byteLength_append, byteLength_append, ← Nat.add_assoc, ← reached.offset]
    exact congrArg (· + byteLength left) turn.offset.symm
  obtain ⟨more, further, rfl⟩ := (reached.turn turn).more scanned
  intro t there ofLine same
  rw [List.append_nil] at there
  rcases List.mem_append.1 there with earlier | later
  · have := reached.line_le t earlier
    omega
  · rw [size] at ofLine
    have next := nextLine_le further t later ofLine
    simp only [LexState.nextLine, dark, Cursor.skipLine, Bool.false_eq_true, if_false] at next
    omega

/-- The levels that a line opens or closes behind some tokens, and the place of its own width
in the open ones then. -/
def Opened (source read : List Char) (told : List Token) (left : List Char)
    (levels : List Token) : Prop :=
  (∀ l ∈ levels, l.kind.isLevel = true) ∧ ∃ s,
    Scanned source (read ++ left.take (indentation 0 left).2) (told ++ levels) s
      (left.drop (indentation 0 left).2) ∧
    s.widths.reverse[nesting (told ++ levels)]? = some (indentation 0 left).1

theorem Scanned.opened {indent rest : List Char} {levels : List Token}
    (reached : Scanned source read told s (indent ++ rest))
    (blanks : ∀ c ∈ indent, isIndent c = true) (stops : ∀ c ∈ rest.head?, isIndent c = false)
    (turn : Turn s indent rest levels s')
    (change : LevelChange s'.cursor (indentation 0 indent).1 s.widths s'.widths levels) :
    Opened source read told (indent ++ rest) levels := by
  obtain ⟨stacked, inner⟩ := reached.stacked.change change
  rw [Opened, indentation_append blanks stops 0]
  simp only [List.take_left, List.drop_left]
  refine ⟨fun l there => ?_, s', reached.turn turn, stacked.position inner⟩
  obtain ⟨kind, level, rfl⟩ := change.places l there
  exact level

/-- **Behind the levels of a logical line comes its first token.** -/
theorem Scanned.line (scanned : scan {} source = .ok ts)
    (reached : Scanned source read told s left) (starts : s.AtLine)
    (text : isBlankLine (left.drop (indentation 0 left).2) = false) :
    ∃ levels t more, Opened source read told left levels ∧ ts = told ++ levels ++ t :: more ∧
      ¬t.isOfLine (byteLength source) := by
  obtain ⟨indent, rest, rfl, blanks, stops⟩ := exists_indent left
  rw [indentation_append blanks stops 0, List.drop_left] at text
  obtain ⟨all, behind, rfl⟩ := reached.more scanned
  obtain ⟨levels, s', more, turn, change, inside, further, rfl⟩ :=
    exists_level starts blanks stops text behind
  have onward := reached.turn turn
  obtain ⟨t, others, rfl, notLevel⟩ := first_of_scan further inside
  refine ⟨levels, t, others, reached.opened blanks stops turn change, by simp, ?_⟩
  have size : byteLength source = s'.cursor.offset + byteLength rest := by
    rw [onward.shape, byteLength_append, ← onward.offset]
  rwa [size]

/-- Whether the next token is the first one of a logical line: but for levels, there is no
token or the end of a line in front of it. -/
def StartsLine (told : List Token) : Prop :=
  ∀ t ∈ (told.filter fun t => !t.kind.isLevel).getLast?, t.kind = .newline

/-- A place where a logical line starts, behind some tokens, and its levels. -/
def LineAt (source : List Char) (before : List Token) : Prop :=
  ∃ read told s left levels, Scanned source read told s left ∧ s.AtLine ∧
    isBlankLine (left.drop (indentation 0 left).2) = false ∧ before = told ++ levels ∧
      Opened source read told left levels

theorem Scanned.lineAt (reached : Scanned source read told s left) (inside : s.lineStart = false)
    (first : StartsLine told) : LineAt source told := by
  induction reached with
  | start => cases inside
  | @turn read piece left told tokens s s' reached turn ih =>
      have levels := turn.levels
      cases turn with
      | blankLine starts | lastBlankLine starts =>
          rw [starts.1] at inside
          cases inside
      | level starts blanks solid text changed =>
          refine ⟨read, told, s, piece ++ left, tokens, reached, starts, ?_, rfl,
            reached.opened blanks solid (.level starts blanks solid text changed)
              (levelChange_of_ok changed)⟩
          rwa [indentation_append blanks solid 0, List.drop_left]
      | lineEnd => cases inside
      | @token c rest kind n depth _ _ read' =>
          -- a token with a text stands behind the start of a line
          have dark := (wording_of_lexeme read').not_layout
          let t := s.cursor.token kind (byteLength (c :: rest.take n))
          have newline : t.kind = .newline := first t (by simp [t, Cursor.token, not_isLevel dark])
          obtain rfl : kind = .newline := newline
          cases dark
      | _ =>
          rw [List.append_nil] at first ⊢
          exact ih inside first

/-- A token with a text is told inside a line. -/
theorem exists_inside {before after : List Token} (scanned : scan {} source = .ok ts)
    (shape : ts = before ++ t :: after) (dark : t.kind.isLayout = false) :
    ∃ read s left, Scanned source read before s left ∧ s.lineStart = false := by
  rcases exists_telling scanned shape with
    ⟨read, told, s, piece, left, tokens, s', m, rest, reached, turn, rfl, here⟩ |
    ⟨told, s, closing, m, rest, reached, closed, rfl, here⟩
  · cases turn with
    | level _ _ _ _ changed =>
        have layout := layout_of_levelChange (levelChange_of_ok changed) t (by simp [here])
        rw [dark] at layout
        cases layout
    | lineEnd =>
        have same : t ∈ [s.cursor.emptyToken .newline] := by simp [here]
        rw [List.mem_singleton.1 same] at dark
        cases dark
    | token outside =>
        obtain rfl : m = [] := by
          have size := congrArg List.length here
          simp only [List.length_append, List.length_cons, List.length_nil] at size
          exact List.length_eq_zero_iff.1 (by omega)
        rw [List.append_nil]
        exact ⟨read, s, _, reached, reached.inside outside⟩
    | _ => simp at here
  · obtain ⟨kind, layout, _, rfl⟩ := places_of_finish closed t (by simp [here])
    exact absurd (layout.symm.trans dark) (by decide)

end Places

/-- What the indents and dedents of a source keep to. -/
structure Indented (source : List Char) (ts : List Token) : Prop where
  /-- No level is closed that was not opened. -/
  above : ∀ p, p <+: ts → dedents p ≤ indents p
  /-- All levels are closed in the end. -/
  equal : indents ts = dedents ts
  /-- Throughout the run the widths that are open rise from 0. -/
  rising : ∀ {read told s left}, Scanned source read told s left →
    told <+: ts ∧ s.widths.reverse.head? = some 0 ∧ s.widths.reverse.Pairwise (· < ·)
  /-- Behind the levels of a logical line comes its first token. -/
  lines : ∀ {read told s left}, Scanned source read told s left → s.AtLine →
    isBlankLine (left.drop (indentation 0 left).2) = false →
      ∃ levels t more, Opened source read told left levels ∧ ts = told ++ levels ++ t :: more ∧
        ¬t.isOfLine (byteLength source)
  /-- The first token of a logical line stands behind the levels of the line. -/
  first : ∀ before t after, ts = before ++ t :: after → t.kind.isLayout = false →
    StartsLine before → LineAt source before
  /-- No level changes inside brackets. -/
  outside : ∀ before t after, ts = before ++ t :: after → t.kind.isLevel = true →
    tally TokenKind.opensBracket before = tally TokenKind.closesBracket before
  /-- Nor does one on a line behind a backslash, except at the end of the source. -/
  continued : ∀ {read told s slash left}, Scanned source read told s (slash ++ left) →
    ¬s.AtLine → slash ∈ continuations → ∀ t ∈ ts, t.isOfLine (byteLength source) →
      t.position.line ≠ s.cursor.line + 1

/-- **The levels of a source follow the widths of its lines.** -/
theorem levels_of_tokenize {source : String} {ts : List Token} (cut : tokenize source = .ok ts) :
    Indented source.toList ts where
  above := (balanced_of_scan cut).1
  equal := (balanced_of_scan cut).2
  rising reached := by
    obtain ⟨more, _, rfl⟩ := reached.more cut
    have stacked := reached.stacked
    refine ⟨List.prefix_append _ _, ?_, List.pairwise_reverse.2 stacked.sorted⟩
    rw [List.head?_reverse, stacked.base]
  lines reached starts text := reached.line cut starts text
  first before t after shape dark starts := by
    obtain ⟨_, _, _, reached, inside⟩ := exists_inside cut shape dark
    exact reached.lineAt inside starts
  outside before t after shape level := outside_of_scan cut shape level
  continued reached inside is := line_ne_of_continuation cut reached inside is

/-- Two levels that one line closes, a line in brackets, a continued one, and a level that is
open at the end. -/
def levelLines : String :=
  "a:\n  b:\n    f(1,\n  2)\n\n  # c\nd:\n\te + \\\n      f\n\tg"

theorem levels_of_tokenize_levelLines : ∃ ts, tokenize levelLines = .ok ts ∧
    (ts.filter fun t => t.kind.isLevel).map (fun t => (t.kind, t.position.line)) =
      [(.indent, 2), (.indent, 3), (.dedent, 7), (.dedent, 7), (.indent, 8), (.dedent, 10)] ∧
    Indented levelLines.toList ts := by
  have levels : (tokenize levelLines).toOption.map (fun ts =>
      (ts.filter fun t => t.kind.isLevel).map fun t => (t.kind, t.position.line)) =
        some [(.indent, 2), (.indent, 3), (.dedent, 7), (.dedent, 7), (.indent, 8),
          (.dedent, 10)] := by
    decide +kernel
  obtain ⟨ts, found, levels⟩ := Option.map_eq_some_iff.1 levels
  have cut := ok_of_toOption found
  exact ⟨ts, cut, levels, levels_of_tokenize cut⟩

end PulseSequencer.Ppp
