import PulseSequencer.Ppp.Lexer
import PulseSequencer.Proofs.Except
import PulseSequencer.Proofs.Text.Lines

/-
# PulseSequencer.Proofs.Ppp.Turns -- what the scanner can do

`Turn` has one rule for everything that the scanner can do at a place: the piece of text that
it takes, the tokens that it tells of it, and the state behind it.  The rules are exact:
`scan_of_turn` and `exists_turn` together say that to scan a text is to make turns until it is
used up.  What holds of all sources is proved from the rules, by `scan_induction` for what
is still to be told, and by induction over `Scanned` for what was told so far.
-/

namespace PulseSequencer.Ppp

open PulseSequencer.Text (byteLength byteLength_append mem_takeWhile take_takeWhile takeWhile_append_stop)

set_option autoImplicit false

/-! ## Blanks in front of a line -/

def isIndent (c : Char) : Bool := c == ' ' || c == '\t'

section Indent

variable {indent more rest left line : List Char}

theorem indentation_append (blanks : ∀ c ∈ indent, isIndent c = true)
    (stops : ∀ c ∈ rest.head?, isIndent c = false) (width : Nat) :
    indentation width (indent ++ rest) = ((indentation width indent).1, indent.length) := by
  induction indent generalizing width with
  | nil =>
      cases rest with
      | nil => rfl
      | cons c rest =>
          have solid : isIndent c = false := stops c rfl
          simp only [isIndent, Bool.or_eq_false_iff, beq_eq_false_iff_ne] at solid
          rw [List.nil_append, indentation.eq_3 width (c :: rest) (by simp_all) (by simp_all)]
          rfl
  | cons c indent ih =>
      have here := blanks c (by simp)
      have later := ih fun x there => blanks x (by simp [there])
      simp only [isIndent, Bool.or_eq_true, beq_iff_eq] at here
      rcases here with rfl | rfl <;> simp [indentation, later]

theorem byteLength_indent (blanks : ∀ c ∈ indent, isIndent c = true) :
    byteLength indent = indent.length := by
  induction indent with
  | nil => rfl
  | cons c indent ih =>
      have here := blanks c (by simp)
      have later := ih fun x there => blanks x (by simp [there])
      simp only [isIndent, Bool.or_eq_true, beq_iff_eq] at here
      have one : c.utf8Size = 1 := by rcases here with rfl | rfl <;> rfl
      rw [byteLength, later, one, List.length_cons, Nat.add_comm]

theorem exists_indent (cs : List Char) : ∃ indent rest, cs = indent ++ rest ∧
    (∀ c ∈ indent, isIndent c = true) ∧ ∀ c ∈ rest.head?, isIndent c = false := by
  refine ⟨cs.takeWhile isIndent, cs.dropWhile isIndent, by simp, fun c => mem_takeWhile, ?_⟩
  intro c there
  have stops := List.head?_dropWhile_not isIndent cs
  rw [Option.mem_def.1 there] at stops
  simpa using stops

/-- The first line of a text, with or without its line feed. -/
theorem exists_line (cs : List Char) :
    (∃ line left, cs = line ++ '\n' :: left ∧ '\n' ∉ line) ∨ '\n' ∉ cs := by
  by_cases there : '\n' ∈ cs
  · obtain ⟨line, left, shape, first⟩ := List.eq_append_cons_of_mem there
    exact .inl ⟨line, left, shape, first⟩
  · exact .inr there

theorem splitBlankLine_feed (one : '\n' ∉ line) (left : List Char) :
    splitBlankLine (line ++ '\n' :: left) = (byteLength line + 1, true, left) := by
  have all : ∀ c ∈ line, decide (c ≠ '\n') = true := by
    intro c there
    simpa using ne_of_mem_of_not_mem there one
  rw [splitBlankLine, takeWhile_append_stop all (by simp), List.dropWhile_append_of_pos all]
  rfl

theorem splitBlankLine_last (one : '\n' ∉ line) :
    splitBlankLine line = (byteLength line, false, []) := by
  have all : ∀ c ∈ line, decide (c ≠ '\n') = true := by
    intro c there
    simpa using ne_of_mem_of_not_mem there one
  have whole : (line ++ []).takeWhile (fun c => decide (c ≠ '\n')) = line :=
    takeWhile_append_stop all (by simp)
  have none' : (line ++ []).dropWhile (fun c => decide (c ≠ '\n')) = [] :=
    List.dropWhile_append_of_pos all
  rw [List.append_nil] at whole none'
  rw [splitBlankLine, whole, none']

end Indent

/-- A place in one of two lists. -/
theorem append_eq_append_cons {α : Type} {xs ys before behind : List α} {x : α}
    (shape : xs ++ ys = before ++ x :: behind) :
    (∃ m, xs = before ++ x :: m) ∨ ∃ m, before = xs ++ m ∧ ys = m ++ x :: behind := by
  rcases List.append_eq_append_iff.1 shape with ⟨m, rfl, rest⟩ | ⟨m, rfl, rest⟩
  · exact .inr ⟨m, rfl, rest⟩
  · cases m with
    | nil => exact .inr ⟨[], by simp, rest.symm⟩
    | cons y m =>
        obtain ⟨rfl, _⟩ := List.cons.inj rest
        exact .inl ⟨m, rfl⟩

/-! ## Levels -/

section Levels

variable {c : Cursor} {width : Nat} {widths widths' : List Nat} {ts : List Token}

/-- The levels that are closed are the inner ones that are wider. -/
theorem exists_closed (width : Nat) (widths : List Nat) : ∃ closed,
    widths = closed ++ (closeTo width widths).2 ∧ closed.length = (closeTo width widths).1 ∧
      ∀ w ∈ closed, width < w := by
  induction widths with
  | nil => exact ⟨[], rfl, rfl, by simp⟩
  | cons w outer ih =>
      rw [closeTo]
      by_cases wider : width < w
      · obtain ⟨closed, shape, count, all⟩ := ih
        rw [if_pos wider]
        refine ⟨w :: closed, ?_, ?_, ?_⟩
        · rw [List.cons_append, ← shape]
        · rw [List.length_cons, count]
        · exact List.forall_mem_cons.2 ⟨wider, all⟩
      · rw [if_neg wider]
        exact ⟨[], rfl, rfl, by simp⟩

/-- What the blanks of a line do: open a level that is wider than the innermost one, or close
all that are wider than they are, down to one of their width. -/
inductive LevelChange (c : Cursor) (width : Nat) : List Nat → List Nat → List Token → Prop
  | opens {widths : List Nat} (wider : widths.headD 0 < width) :
      LevelChange c width widths (width :: widths) [c.emptyToken .indent]
  | closes {closed widths : List Nat} (wider : ∀ w ∈ closed, width < w)
      (same : widths.headD 0 = width) :
      LevelChange c width (closed ++ widths) widths
        (List.replicate closed.length (c.emptyToken .dedent))

theorem levelChange_of_ok (changed : changeLevel c width widths = .ok (widths', ts)) :
    LevelChange c width widths widths' ts := by
  unfold changeLevel at changed
  split at changed
  · rename_i wider
    obtain ⟨rfl, rfl⟩ := Prod.mk.inj (Except.ok.inj changed)
    exact .opens wider
  · obtain ⟨closed, shape, count, wider⟩ := exists_closed width widths
    dsimp only at changed
    split at changed
    · rename_i same
      obtain ⟨rfl, rfl⟩ := Prod.mk.inj (Except.ok.inj changed)
      have change := LevelChange.closes (c := c) wider same
      rwa [← shape, count] at change
    · cases changed

/-- Whether a token stands for the layout of lines. -/
def TokenKind.isLayout : TokenKind → Bool
  | .newline | .indent | .dedent | .eof => true
  | _ => false

/-- Whether a token opens or closes a level. -/
def TokenKind.isLevel : TokenKind → Bool
  | .indent | .dedent => true
  | _ => false

theorem isLayout_of_isLevel {kind : TokenKind} (level : kind.isLevel = true) :
    kind.isLayout = true := by
  cases kind <;> first | rfl | cases level

theorem not_isLevel {kind : TokenKind} (dark : kind.isLayout = false) : kind.isLevel = false := by
  cases kind <;> first | rfl | cases dark

/-- The tokens of a level stand where the blanks end. -/
theorem LevelChange.places (change : LevelChange c width widths widths' ts) :
    ∀ t ∈ ts, ∃ kind : TokenKind, kind.isLevel = true ∧ t = c.emptyToken kind := by
  intro t there
  cases change with
  | opens => exact ⟨.indent, rfl, List.mem_singleton.1 there⟩
  | closes => exact ⟨.dedent, rfl, List.eq_of_mem_replicate there⟩

end Levels

/-! ## Turns -/

/-- Whether the blanks of a line are measured next. -/
def LexState.AtLine (s : LexState) : Prop := s.lineStart = true ∧ s.depth = 0

/-- The texts with which a line goes on behind its line feed. -/
def continuations : List (List Char) := [['\\', '\n'], ['\\', '\r', '\n']]

/-- The characters that stand for no token by themselves. -/
def skipped : List Char := ['\n', '\\', '#', ' ', '\t', '\r']

/-- Whether a line is one whose first token is still to come, behind the tokens that its
blanks stand for. -/
def startsInLine (s : LexState) : List Token → Bool
  | [] => s.inLine
  | t :: _ => t.kind = .indent

/-- What the scanner does at a place: the piece of text that it takes, what is left, the
tokens that it tells, and its state from then on. -/
inductive Turn (s : LexState) : List Char → List Char → List Token → LexState → Prop
  | blankLine {indent more left : List Char} (starts : s.AtLine)
      (blanks : ∀ c ∈ indent, isIndent c = true) (void : ∀ c ∈ more.head?, c = '#' ∨ c = '\r')
      (one : '\n' ∉ more) :
      Turn s (indent ++ more ++ ['\n']) left []
        { s with cursor := s.cursor.skipLine (byteLength (indent ++ more) + 1) }
  | lastBlankLine {indent more : List Char} (starts : s.AtLine)
      (blanks : ∀ c ∈ indent, isIndent c = true) (void : ∀ c ∈ more.head?, c = '#' ∨ c = '\r')
      (one : '\n' ∉ more) (some' : indent ++ more ≠ []) :
      Turn s (indent ++ more) [] [] { s with cursor := s.cursor.skip (byteLength (indent ++ more)) }
  | level {indent left : List Char} {widths : List Nat} {tokens : List Token} (starts : s.AtLine)
      (blanks : ∀ c ∈ indent, isIndent c = true) (solid : ∀ c ∈ left.head?, isIndent c = false)
      (text : isBlankLine left = false)
      (changed : changeLevel (s.cursor.skip indent.length) (indentation 0 indent).1 s.widths =
        .ok (widths, tokens)) :
      Turn s indent left tokens
        { s with
          cursor := s.cursor.skip indent.length, widths, lineStart := false,
          inLine := startsInLine s tokens }
  | lineEnd {left : List Char} (inside : ¬ s.AtLine) (closed : s.depth = 0) :
      Turn s ['\n'] left [s.cursor.emptyToken .newline]
        { s with cursor := s.cursor.skipLine 1, lineStart := true, inLine := false }
  | innerEnd {left : List Char} (inside : ¬ s.AtLine) (opened : s.depth ≠ 0) :
      Turn s ['\n'] left [] { s with cursor := s.cursor.skipLine 1 }
  | continued {slash left : List Char} (inside : ¬ s.AtLine) (is : slash ∈ continuations) :
      Turn s slash left [] { s with cursor := s.cursor.skipLine slash.length }
  | comment {line left : List Char} (inside : ¬ s.AtLine) (one : '\n' ∉ line)
      (ends : ∀ c ∈ left.head?, c = '\n') :
      Turn s ('#' :: line) left [] { s with cursor := s.cursor.skip (byteLength ('#' :: line)) }
  | blank {c : Char} {left : List Char} (inside : ¬ s.AtLine)
      (is : c = ' ' ∨ c = '\t' ∨ c = '\r') :
      Turn s [c] left [] { s with cursor := s.cursor.skip 1 }
  | token {c : Char} {rest : List Char} {kind : TokenKind} {n depth : Nat} (inside : ¬ s.AtLine)
      (solid : c ∉ skipped) (read : lexeme c rest = .ok (kind, n))
      (after : depthAfterToken s.cursor s.depth kind = .ok depth) :
      Turn s (c :: rest.take n) (rest.drop n)
        [s.cursor.token kind (byteLength (c :: rest.take n))]
        { s with cursor := s.cursor.skip (byteLength (c :: rest.take n)), depth, inLine := true }

section Turns

variable {s s' : LexState} {piece left : List Char} {tokens ts : List Token}

/-- The text that a blank line leaves for the blanks to be measured. -/
theorem isBlankLine_void {more left : List Char} (void : ∀ c ∈ more.head?, c = '#' ∨ c = '\r')
    (ends : ∀ c ∈ left.head?, c = '\n') :
    isBlankLine (more ++ left) = true ∧ ∀ c ∈ (more ++ left).head?, isIndent c = false := by
  cases more with
  | nil =>
      cases left with
      | nil => simp [isBlankLine]
      | cons c left =>
          obtain rfl := ends c rfl
          simp [isBlankLine, isIndent]
  | cons c more =>
      rcases void c rfl with rfl | rfl <;> simp [isBlankLine, isIndent]

/-- The cursor of a turn goes past the text that it takes. -/
theorem Turn.offset (turn : Turn s piece left tokens s') :
    s'.cursor.offset = s.cursor.offset + byteLength piece := by
  cases turn with
  | @blankLine indent more =>
      rw [byteLength_append (indent ++ more)]
      rfl
  | level _ blanks =>
      rw [byteLength_indent blanks]
      rfl
  | continued _ is =>
      simp only [continuations, List.mem_cons, List.not_mem_nil, or_false] at is
      rcases is with rfl | rfl <;> rfl
  | blank _ is => rcases is with rfl | rfl | rfl <;> rfl
  | lastBlankLine | lineEnd | innerEnd | comment | token => rfl

/-- In front of a line the blanks are measured. -/
theorem scan_atLine {indent rest : List Char} (starts : s.AtLine)
    (blanks : ∀ c ∈ indent, isIndent c = true) (stops : ∀ c ∈ rest.head?, isIndent c = false)
    (some' : indent ++ rest ≠ []) :
    scan s (indent ++ rest) =
      if isBlankLine rest then
        let line := splitBlankLine (indent ++ rest)
        let cursor := if line.2.1 then s.cursor.skipLine line.1 else s.cursor.skip line.1
        scan { s with cursor } line.2.2
      else do
        let cursor := s.cursor.skip indent.length
        let (widths, tokens) ← changeLevel cursor (indentation 0 indent).1 s.widths
        let more ← scan
          { s with cursor, widths, lineStart := false, inLine := startsInLine s tokens } rest
        return tokens ++ more := by
  have measured := indentation_append blanks stops 0
  have left : (indent ++ rest).drop indent.length = rest := List.drop_left
  generalize whole : indent ++ rest = cs at *
  obtain ⟨c, others, rfl⟩ := List.exists_cons_of_ne_nil some'
  rw [scan, if_pos (by exact starts), measured]
  simp only [left]
  rfl

/-- Elsewhere the first character decides. -/
theorem scan_inside {c : Char} {rest : List Char} (inside : ¬ s.AtLine) :
    scan s (c :: rest) =
      if c = '\n' then
        if s.depth = 0 then do
          let more ← scan
            { s with cursor := s.cursor.skipLine 1, lineStart := true, inLine := false } rest
          return s.cursor.emptyToken .newline :: more
        else scan { s with cursor := s.cursor.skipLine 1 } rest
      else if c = '\\' ∧ ['\n'].isPrefixOf rest then
        scan { s with cursor := s.cursor.skipLine 2 } (rest.drop 1)
      else if c = '\\' ∧ ['\r', '\n'].isPrefixOf rest then
        scan { s with cursor := s.cursor.skipLine 3 } (rest.drop 2)
      else if c = '#' then
        let comment := rest.takeWhile (· ≠ '\n')
        scan { s with cursor := s.cursor.skip (1 + byteLength comment) } (rest.drop comment.length)
      else if c = ' ' ∨ c = '\t' ∨ c = '\r' then
        scan { s with cursor := s.cursor.skip 1 } rest
      else
        match lexeme c rest with
        | .error fault => s.cursor.fail fault
        | .ok (kind, n) => do
            let bytes := c.utf8Size + byteLength (rest.take n)
            let depth ← depthAfterToken s.cursor s.depth kind
            let more ← scan { s with cursor := s.cursor.skip bytes, depth, inLine := true }
              (rest.drop n)
            return s.cursor.token kind bytes :: more := by
  rw [scan]
  exact if_neg inside

theorem map_nil_append (scanned : Except CompileError (List Token)) :
    scanned.map ([] ++ ·) = scanned := by
  cases scanned <;> rfl

theorem bind_eq_map (scanned : Except CompileError (List Token)) (told : List Token) :
    (do let more ← scanned; return told ++ more) = scanned.map (told ++ ·) := by
  cases scanned <;> rfl

theorem feed_not_mem_blank {indent more : List Char} (blanks : ∀ c ∈ indent, isIndent c = true)
    (one : '\n' ∉ more) : '\n' ∉ indent ++ more := by
  intro there
  rcases List.mem_append.1 there with inside | inside
  · exact absurd (blanks _ inside) (by decide)
  · exact one inside

/-- **A turn goes on with what it leaves.** -/
theorem scan_of_turn (turn : Turn s piece left tokens s') :
    scan s (piece ++ left) = (scan s' left).map (tokens ++ ·) := by
  cases turn with
  | @blankLine indent more left starts blanks void one =>
      obtain ⟨blank, stops⟩ : isBlankLine (more ++ '\n' :: left) = true ∧ _ :=
        isBlankLine_void void (by simp)
      have shape : indent ++ more ++ ['\n'] ++ left = indent ++ (more ++ '\n' :: left) := by simp
      rw [map_nil_append, shape, scan_atLine starts blanks stops (by simp), if_pos blank,
        ← List.append_assoc, splitBlankLine_feed (feed_not_mem_blank blanks one)]
      rfl
  | @lastBlankLine indent more starts blanks void one some' =>
      obtain ⟨blank, stops⟩ : isBlankLine (more ++ []) = true ∧ _ :=
        isBlankLine_void void (by simp)
      rw [List.append_nil] at blank stops
      rw [map_nil_append, List.append_nil, scan_atLine starts blanks stops some', if_pos blank,
        splitBlankLine_last (feed_not_mem_blank blanks one)]
      rfl
  | level starts blanks solid text changed =>
      have some' : piece ++ left ≠ [] := by
        intro none'
        obtain ⟨_, rfl⟩ := List.append_eq_nil_iff.1 none'
        cases text
      rw [scan_atLine starts blanks solid some', if_neg (by simp [text])]
      dsimp only
      rw [changed]
      exact bind_eq_map _ _
  | lineEnd inside closed =>
      rw [List.singleton_append, scan_inside inside, if_pos rfl, if_pos closed]
      exact bind_eq_map _ [_]
  | innerEnd inside opened =>
      rw [List.singleton_append, scan_inside inside, if_pos rfl, if_neg opened, map_nil_append]
  | continued inside is =>
      simp only [continuations, List.mem_cons, List.not_mem_nil, or_false] at is
      rw [map_nil_append]
      rcases is with rfl | rfl
      · rw [List.cons_append, scan_inside inside, if_neg (by decide), if_pos (by simp)]
        rfl
      · rw [List.cons_append, scan_inside inside, if_neg (by decide), if_neg (by simp),
          if_pos (by simp)]
        rfl
  | @comment line left inside one ends =>
      have all : ∀ c ∈ line, decide (c ≠ '\n') = true := by
        intro c there
        simpa using ne_of_mem_of_not_mem there one
      have comment : (line ++ left).takeWhile (fun c => decide (c ≠ '\n')) = line :=
        takeWhile_append_stop all fun c there => by simpa using ends c there
      rw [map_nil_append, List.cons_append, scan_inside inside, if_neg (by decide),
        if_neg (by simp), if_neg (by simp), if_pos rfl, comment]
      simp only [List.drop_left]
      rfl
  | @blank c left inside is =>
      have plain : c ≠ '\n' ∧ c ≠ '\\' ∧ c ≠ '#' := by rcases is with rfl | rfl | rfl <;> decide
      rw [map_nil_append, List.singleton_append, scan_inside inside, if_neg plain.1,
        if_neg (by simp [plain.2.1]), if_neg (by simp [plain.2.1]), if_neg plain.2.2, if_pos is]
  | @token c rest kind n depth inside solid read after =>
      simp only [skipped, List.mem_cons, List.not_mem_nil, or_false, not_or] at solid
      rw [List.cons_append, List.take_append_drop, scan_inside inside, if_neg solid.1,
        if_neg (by simp [solid.2.1]), if_neg (by simp [solid.2.1]), if_neg solid.2.2.1,
        if_neg (by simp [solid.2.2.2]), read]
      dsimp only
      rw [after]
      exact bind_eq_map _ [_]

/-- No token starts with a backslash. -/
theorem lexeme_slash (rest : List Char) : lexeme '\\' rest = .error (.strayCharacter '\\') :=
  rfl

theorem bind_told {scanned : Except CompileError (List Token)} (told : List Token)
    (ran : (do let more ← scanned; return told ++ more) = .ok ts) :
    ∃ more, scanned = .ok more ∧ ts = told ++ more := by
  obtain ⟨more, further, result⟩ := bind_eq_ok.1 ran
  exact ⟨more, further, (Except.ok.inj result).symm⟩

/-- In front of a line with a text the blanks are measured. -/
theorem exists_level {indent rest : List Char} (starts : s.AtLine)
    (blanks : ∀ c ∈ indent, isIndent c = true) (stops : ∀ c ∈ rest.head?, isIndent c = false)
    (text : isBlankLine rest = false) (scanned : scan s (indent ++ rest) = .ok ts) :
    ∃ tokens s' more, Turn s indent rest tokens s' ∧
      LevelChange s'.cursor (indentation 0 indent).1 s.widths s'.widths tokens ∧
        s'.lineStart = false ∧ scan s' rest = .ok more ∧ ts = tokens ++ more := by
  have some' : indent ++ rest ≠ [] := by
    intro none'
    obtain ⟨_, rfl⟩ := List.append_eq_nil_iff.1 none'
    cases text
  rw [scan_atLine starts blanks stops some', if_neg (by simp [text])] at scanned
  obtain ⟨⟨widths, tokens⟩, changed, scanned⟩ := bind_eq_ok.1 scanned
  obtain ⟨more, further, rfl⟩ := bind_told _ scanned
  exact ⟨tokens, _, more, .level starts blanks stops text changed, levelChange_of_ok changed, rfl,
    further, rfl⟩

/-- The turn in front of a line. -/
theorem exists_turn_atLine {cs : List Char} (starts : s.AtLine) (some' : cs ≠ [])
    (scanned : scan s cs = .ok ts) : ∃ piece left tokens s' more, cs = piece ++ left ∧
      Turn s piece left tokens s' ∧ scan s' left = .ok more ∧ ts = tokens ++ more := by
  obtain ⟨indent, rest, rfl, blanks, stops⟩ := exists_indent cs
  cases blank : isBlankLine rest with
  | true =>
    rw [scan_atLine starts blanks stops some', if_pos blank] at scanned
    have void : ∀ {more left : List Char}, rest = more ++ left → '\n' ∉ more →
        ∀ c ∈ more.head?, c = '#' ∨ c = '\r' := by
      intro more left shape one c there
      obtain ⟨others, rfl⟩ := List.head?_eq_some_iff.1 there
      have feed : c ≠ '\n' := fun same => one (by simp [same])
      simp only [shape, List.cons_append, isBlankLine, Bool.or_eq_true, beq_iff_eq] at blank
      rcases blank with (same | sign) | ret
      · exact absurd same feed
      · exact .inl sign
      · exact .inr ret
    rcases exists_line rest with ⟨line, left, rfl, one⟩ | one
    · rw [← List.append_assoc, splitBlankLine_feed (feed_not_mem_blank blanks one)] at scanned
      exact ⟨indent ++ line ++ ['\n'], left, [], _, ts, by simp,
        .blankLine starts blanks (void rfl one) one, scanned, rfl⟩
    · rw [splitBlankLine_last (feed_not_mem_blank blanks one)] at scanned
      exact ⟨indent ++ rest, [], [], _, ts, by simp,
        .lastBlankLine starts blanks (void (List.append_nil rest).symm one) one some', scanned, rfl⟩
  | false =>
    obtain ⟨tokens, s', more, turn, _, _, further, rfl⟩ :=
      exists_level starts blanks stops blank scanned
    exact ⟨indent, rest, tokens, s', more, rfl, turn, further, rfl⟩

/-- The turn within a line. -/
theorem exists_turn_inside {c : Char} {rest : List Char} (inside : ¬ s.AtLine)
    (scanned : scan s (c :: rest) = .ok ts) : ∃ piece left tokens s' more,
      c :: rest = piece ++ left ∧ Turn s piece left tokens s' ∧ scan s' left = .ok more ∧
        ts = tokens ++ more := by
  rw [scan_inside inside] at scanned
  split at scanned
  · rename_i feed
    subst feed
    split at scanned
    · rename_i closed
      obtain ⟨more, further, rfl⟩ := bind_told [_] scanned
      exact ⟨['\n'], rest, _, _, more, rfl, .lineEnd inside closed, further, rfl⟩
    · rename_i opened
      exact ⟨['\n'], rest, [], _, ts, rfl, .innerEnd inside opened, scanned, rfl⟩
  rename_i noFeed
  split at scanned
  · rename_i slash
    obtain ⟨rfl, starts⟩ := slash
    obtain ⟨left, rfl⟩ := List.isPrefixOf_iff_prefix.1 starts
    exact ⟨['\\', '\n'], left, [], _, ts, rfl, .continued inside (by decide), scanned, rfl⟩
  split at scanned
  · rename_i slash
    obtain ⟨rfl, starts⟩ := slash
    obtain ⟨left, rfl⟩ := List.isPrefixOf_iff_prefix.1 starts
    exact ⟨['\\', '\r', '\n'], left, [], _, ts, rfl, .continued inside (by decide), scanned, rfl⟩
  split at scanned
  · rename_i sign
    subst sign
    have cut := List.take_append_drop (rest.takeWhile fun c => decide (c ≠ '\n')).length rest
    rw [take_takeWhile] at cut
    refine ⟨'#' :: rest.takeWhile (· ≠ '\n'), _, [], _, ts, congrArg ('#' :: ·) cut.symm,
      .comment inside ?_ ?_, scanned, rfl⟩
    · intro there
      simpa using mem_takeWhile there
    · intro d there
      have behind := List.append_cancel_left (cut.trans List.takeWhile_append_dropWhile.symm)
      have stops := List.head?_dropWhile_not (fun c => decide (c ≠ '\n')) rest
      rw [← behind, Option.mem_def.1 there] at stops
      simpa using stops
  rename_i noSign
  split at scanned
  · rename_i is
    exact ⟨[c], rest, [], _, ts, rfl, .blank inside is, scanned, rfl⟩
  rename_i noBlank
  split at scanned
  · cases scanned
  · rename_i kind n read
    obtain ⟨depth, after, scanned⟩ := bind_eq_ok.1 scanned
    obtain ⟨more, further, rfl⟩ := bind_told [_] scanned
    have solid : c ∉ skipped := by
      have noSlash : c ≠ '\\' := by
        rintro rfl
        rw [lexeme_slash] at read
        cases read
      simp [skipped, noFeed, noSign, noSlash, not_or.1 noBlank]
    exact ⟨c :: rest.take n, rest.drop n, _, _, more, by simp, .token inside solid read after,
      further, rfl⟩

/-- **Where text is left, a scan makes a turn and goes on.** -/
theorem exists_turn {cs : List Char} (some' : cs ≠ []) (scanned : scan s cs = .ok ts) :
    ∃ piece left tokens s' more, cs = piece ++ left ∧ Turn s piece left tokens s' ∧
      scan s' left = .ok more ∧ ts = tokens ++ more := by
  by_cases starts : s.AtLine
  · exact exists_turn_atLine starts some' scanned
  · obtain ⟨c, rest, rfl⟩ := List.exists_cons_of_ne_nil some'
    exact exists_turn_inside starts scanned

/-- How far a scan can still go: a turn takes text, or reads the blanks of a line. -/
def LexState.toGo (s : LexState) (left : List Char) : Nat :=
  2 * left.length + if s.lineStart then 1 else 0

theorem Turn.shorter (turn : Turn s piece left tokens s') :
    s'.toGo left < s.toGo (piece ++ left) := by
  cases turn with
  | lastBlankLine _ _ _ _ some' =>
      have := List.length_pos_iff.2 some'
      simp only [LexState.toGo, List.append_nil, List.length_nil]
      omega
  | level starts =>
      simp only [LexState.toGo, List.length_append, starts.1, if_true, Bool.false_eq_true, if_false]
      omega
  | lineEnd =>
      simp only [LexState.toGo, List.length_append, List.length_singleton, if_true]
      omega
  | continued _ is =>
      simp only [continuations, List.mem_cons, List.not_mem_nil, or_false] at is
      simp only [LexState.toGo, List.length_append]
      rcases is with rfl | rfl <;> simp only [List.length_cons, List.length_nil] <;> omega
  | blankLine | innerEnd | comment | blank | token =>
      simp only [LexState.toGo, List.length_append, List.length_cons, List.length_nil]
      omega

/-- **What holds at the end of a source and is kept by every turn holds of all that a scan
still tells.** -/
theorem scan_induction {motive : LexState → List Char → List Token → Prop}
    (last : ∀ {s : LexState} {ts : List Token}, finish s = .ok ts → motive s [] ts)
    (turn : ∀ {s s' : LexState} {piece left : List Char} {tokens more : List Token},
      Turn s piece left tokens s' → scan s' left = .ok more → motive s' left more →
        motive s (piece ++ left) (tokens ++ more))
    {cs : List Char} (scanned : scan s cs = .ok ts) : motive s cs ts := by
  induction size : s.toGo cs using Nat.strongRecOn generalizing s cs ts with
  | ind size ih =>
    by_cases none' : cs = []
    · subst none'
      rw [scan] at scanned
      exact last scanned
    · obtain ⟨piece, left, tokens, s', more, rfl, step, further, rfl⟩ := exists_turn none' scanned
      have shorter := step.shorter
      exact turn step further (ih _ (size ▸ shorter) further rfl)

end Turns

/-! ## Runs -/

/-- How far the scanner has come: the text it has read, the tokens it has told of it, its state
and the text that is left. -/
inductive Scanned (source : List Char) : List Char → List Token → LexState → List Char → Prop
  | start : Scanned source [] [] {} source
  | turn {read piece left : List Char} {told tokens : List Token} {s s' : LexState}
      (before : Scanned source read told s (piece ++ left)) (turn : Turn s piece left tokens s') :
      Scanned source (read ++ piece) (told ++ tokens) s' left

section Runs

variable {source read left : List Char} {told ts : List Token} {s : LexState}

theorem Scanned.shape (reached : Scanned source read told s left) : source = read ++ left := by
  induction reached with
  | start => rfl
  | turn _ _ ih => rw [List.append_assoc, ← ih]

theorem map_append_append (scanned : Except CompileError (List Token)) (a b : List Token) :
    (scanned.map (b ++ ·)).map (a ++ ·) = scanned.map (a ++ b ++ ·) := by
  cases scanned <;> simp [Except.map]

theorem Scanned.scan_eq (reached : Scanned source read told s left) :
    scan {} source = (scan s left).map (told ++ ·) := by
  induction reached with
  | start => exact (map_nil_append _).symm
  | turn _ turn ih => rw [ih, scan_of_turn turn, map_append_append]

/-- The tokens of a source go on behind those that were told. -/
theorem Scanned.more (reached : Scanned source read told s left)
    (scanned : scan {} source = .ok ts) :
    ∃ more, scan s left = .ok more ∧ ts = told ++ more := by
  rw [reached.scan_eq] at scanned
  cases further : scan s left with
  | error e =>
      rw [further] at scanned
      cases scanned
  | ok more =>
      rw [further] at scanned
      exact ⟨more, rfl, (Except.ok.inj scanned).symm⟩

/-- **A scan that succeeds reaches the end of the source and closes it.** -/
theorem exists_end (scanned : scan {} source = .ok ts) : ∃ told s closing,
    Scanned source source told s [] ∧ finish s = .ok closing ∧ ts = told ++ closing := by
  have ends : ∀ {s : LexState} {left : List Char} {more : List Token}, scan s left = .ok more →
      ∀ {read told}, Scanned source read told s left → ∃ told' s' closing,
        Scanned source source told' s' [] ∧ finish s' = .ok closing ∧
          told ++ more = told' ++ closing := by
    intro s left more scanned
    refine scan_induction (motive := fun s left more => ∀ {read told},
      Scanned source read told s left → ∃ told' s' closing,
        Scanned source source told' s' [] ∧ finish s' = .ok closing ∧
          told ++ more = told' ++ closing) ?_ ?_ scanned
    · intro s closing closed read told reached
      have whole : source = read := by rw [reached.shape, List.append_nil]
      exact ⟨told, s, closing, whole ▸ reached, closed, rfl⟩
    · intro s s' piece left tokens more turn _ ih read told reached
      rw [← List.append_assoc]
      exact ih (reached.turn turn)
  obtain ⟨told, s, closing, reached, closed, whole⟩ := ends scanned .start
  exact ⟨told, s, closing, reached, closed, whole⟩

/-- **Every token of a source is told by a turn, or closes the source.** -/
theorem exists_telling {before after : List Token} {t : Token} (scanned : scan {} source = .ok ts)
    (shape : ts = before ++ t :: after) :
    (∃ read told s piece left tokens s' m rest, Scanned source read told s (piece ++ left) ∧
      Turn s piece left tokens s' ∧ before = told ++ m ∧ tokens = m ++ t :: rest) ∨
    ∃ told s closing m rest, Scanned source source told s [] ∧ finish s = .ok closing ∧
      before = told ++ m ∧ closing = m ++ t :: rest := by
  have telling : ∀ {read told s left}, Scanned source read told s left → ∀ {before after},
      told = before ++ t :: after →
        ∃ read told s piece left tokens s' m rest, Scanned source read told s (piece ++ left) ∧
          Turn s piece left tokens s' ∧ before = told ++ m ∧ tokens = m ++ t :: rest := by
    intro read told s left reached
    induction reached with
    | start =>
        intro before after shape
        simp at shape
    | turn reached turn ih =>
        intro before after shape
        rcases append_eq_append_cons shape with ⟨m, earlier⟩ | ⟨m, here, rest⟩
        · exact ih earlier
        · exact ⟨_, _, _, _, _, _, _, m, after, reached, turn, here, rest⟩
  obtain ⟨told, s, closing, reached, closed, rfl⟩ := exists_end scanned
  rcases append_eq_append_cons shape with ⟨m, earlier⟩ | ⟨m, here, rest⟩
  · exact .inl (telling reached earlier)
  · exact .inr ⟨told, s, closing, m, after, reached, closed, here, rest⟩

/-- Lines start outside brackets only. -/
theorem Scanned.closed (reached : Scanned source read told s left) (starts : s.lineStart = true) :
    s.depth = 0 := by
  induction reached with
  | start => rfl
  | turn _ turn ih =>
      cases turn with
      | level => cases starts
      | lineEnd _ closed => exact closed
      | token inside => exact absurd ⟨starts, ih starts⟩ inside
      | _ => exact ih starts

theorem Scanned.inside (reached : Scanned source read told s left) (inside : ¬s.AtLine) :
    s.lineStart = false := by
  cases starts : s.lineStart with
  | false => rfl
  | true => exact absurd ⟨starts, reached.closed starts⟩ inside

/-- What closes a source stands at its end: the end of the line under way, and the levels that
are still open. -/
theorem finish_eq_ok {closing : List Token} (closed : finish s = .ok closing) : s.depth = 0 ∧
    closing = (if s.inLine then [s.cursor.emptyToken .newline] else []) ++
      List.replicate (s.widths.length - 1) (s.cursor.emptyToken .dedent) ++
        [s.cursor.emptyToken .eof] := by
  unfold finish at closed
  split at closed
  · cases closed
  · exact ⟨by omega, (Except.ok.inj closed).symm⟩

theorem places_of_finish {closing : List Token} (closed : finish s = .ok closing) :
    ∀ t ∈ closing, ∃ kind : TokenKind, kind.isLayout = true ∧ kind ≠ .indent ∧
      t = s.cursor.emptyToken kind := by
  obtain ⟨_, rfl⟩ := finish_eq_ok closed
  intro t there
  simp only [List.mem_append, List.mem_replicate, List.mem_singleton] at there
  rcases there with (newline | ⟨_, rfl⟩) | rfl
  · split at newline
    · exact ⟨.newline, rfl, by simp, List.mem_singleton.1 newline⟩
    · cases newline
  · exact ⟨.dedent, rfl, by simp, rfl⟩
  · exact ⟨.eof, rfl, by simp, rfl⟩

end Runs

end PulseSequencer.Ppp
