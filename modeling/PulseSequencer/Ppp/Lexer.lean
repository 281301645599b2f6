import PulseSequencer.Ppp.Error
import PulseSequencer.Text.Alphanumeric
import PulseSequencer.Text.Blank
import PulseSequencer.Text.Utf8

/-
# PulseSequencer.Ppp.Lexer -- from source to tokens

The blanks in front of a logical line are measured against the widths of the
levels that are open, and turned into indents and dedents.  A line goes on inside
brackets and after a backslash at its end; blank lines and comments count for
nothing.
-/

namespace PulseSequencer.Ppp

set_option autoImplicit false

/-- A place in the source. -/
structure Cursor where
  offset : Nat := 0
  line : Nat := 1
  lineStart : Nat := 0
deriving Repr, DecidableEq

namespace Cursor

def position (c : Cursor) : Position := ⟨c.line, c.offset - c.lineStart + 1⟩

/-- Steps over text without a line feed. -/
def skip (c : Cursor) (bytes : Nat) : Cursor := { c with offset := c.offset + bytes }

/-- Steps over text that ends in a line feed. -/
def skipLine (c : Cursor) (bytes : Nat) : Cursor :=
  ⟨c.offset + bytes, c.line + 1, c.offset + bytes⟩

/-- A token of no width. -/
def emptyToken (c : Cursor) (kind : TokenKind) : Token :=
  ⟨kind, c.offset, c.offset, c.position⟩

def token (c : Cursor) (kind : TokenKind) (bytes : Nat) : Token :=
  ⟨kind, c.offset, c.offset + bytes, c.position⟩

def fail {α : Type} (c : Cursor) (fault : CompileFault) : Except CompileError α :=
  .error ⟨c.position, fault⟩

end Cursor

/-- What the lexer knows at a place: the brackets and indentation levels that are
open (innermost first), whether the next character starts a line, and whether a
logical line is under way. -/
structure LexState where
  cursor : Cursor := {}
  depth : Nat := 0
  widths : List Nat := [0]
  lineStart : Bool := true
  inLine : Bool := false
deriving Repr

/-! ## Single tokens -/

/-- A token: its kind and the number of characters after the first. -/
abbrev Lexeme := Except CompileFault (TokenKind × Nat)

def isHexDigit (c : Char) : Bool :=
  c.isDigit || ('a' ≤ c && c ≤ 'f') || ('A' ≤ c && c ≤ 'F')

def isNamePart (c : Char) : Bool := Text.isAlphanumeric c || c == '_'

/-- How many characters at the front look like a decimal number. -/
def decimalLength : List Char → Nat
  | [] => 0
  | [c] => if c.isDigit || c == '.' || c == '_' then 1 else 0
  | c :: d :: rest =>
      if c.isDigit || c == '.' || c == '_' then decimalLength (d :: rest) + 1
      else if (c = 'e' ∨ c = 'E') ∧ (d.isDigit ∨ d = '-' ∨ d = '+') then
        decimalLength rest + 2
      else 0

def numberLength (cs : List Char) : Nat :=
  match cs with
  | '0' :: 'x' :: rest | '0' :: 'X' :: rest =>
      2 + (rest.takeWhile fun c => isHexDigit c || c == '_').length
  | _ => decimalLength cs

/-- A text ends on the line it starts on. -/
def textLexeme (quote : Char) (rest : List Char) : Lexeme :=
  match Text.splitFirst? (· = quote) rest with
  | some (body, _) =>
      if '\n' ∈ body then .error .unterminatedText else .ok (.text, body.length + 1)
  | none => .error .unterminatedText

def nameLexeme (c : Char) (rest : List Char) : Lexeme :=
  if isNamePart c then
    let more := rest.takeWhile isNamePart
    .ok (.name (String.ofList (c :: more)), more.length)
  else .error .strayLetter

def markLexeme (c : Char) (rest : List Char) : Lexeme :=
  match Mark.all.find? fun m => m.chars.isPrefixOf (c :: rest) with
  | some m => .ok (.mark m, m.chars.length - 1)
  | none => .error (.strayCharacter c)

def lexeme (c : Char) (rest : List Char) : Lexeme :=
  if c = '"' ∨ c = '\'' then textLexeme c rest
  else if c.isDigit ∨ (c = '.' ∧ rest.head?.any Char.isDigit) then
    .ok (.number, numberLength (c :: rest) - 1)
  else if c.isAlpha ∨ c = '_' ∨ 0x80 ≤ c.toNat then nameLexeme c rest
  else markLexeme c rest

/-! ## Indentation -/

def tabWidth : Nat := 4

/-- The width of the blanks at the front, and how many they are. -/
def indentation (width : Nat) : List Char → Nat × Nat
  | ' ' :: rest =>
      let (w, n) := indentation (width + 1) rest
      (w, n + 1)
  | '\t' :: rest =>
      let (w, n) := indentation ((width / tabWidth + 1) * tabWidth) rest
      (w, n + 1)
  | _ => (width, 0)

/-- Whether the text behind the blanks of a line is none, or a comment. -/
def isBlankLine : List Char → Bool
  | [] => true
  | c :: _ => c == '\n' || c == '#' || c == '\r'

/-- Closes the levels that are wider than a line; the number of levels closed. -/
def closeTo (width : Nat) : List Nat → Nat × List Nat
  | [] => (0, [])
  | w :: outer =>
      if width < w then
        let (n, open') := closeTo width outer
        (n + 1, open')
      else (0, w :: outer)

/-- The levels and tokens that a line of some width opens or closes. -/
def changeLevel (c : Cursor) (width : Nat) (widths : List Nat) :
    Except CompileError (List Nat × List Token) :=
  if widths.headD 0 < width then .ok (width :: widths, [c.emptyToken .indent])
  else
    let (closed, open') := closeTo width widths
    if open'.headD 0 = width then .ok (open', List.replicate closed (c.emptyToken .dedent))
    else c.fail .badUnindent

/-! ## The whole source -/

/-- Brackets that are open behind a mark. -/
def depthAfter (c : Cursor) (depth : Nat) (m : Mark) : Except CompileError Nat :=
  if m.opens then .ok (depth + 1)
  else if m.closes then
    match depth with
    | 0 => c.fail (.unmatched m)
    | d + 1 => .ok d
  else .ok depth

/-- The brackets that are open behind any token. -/
def depthAfterToken (c : Cursor) (depth : Nat) : TokenKind → Except CompileError Nat
  | .mark m => depthAfter c depth m
  | _ => .ok depth

/-- The tokens that close a source. -/
def finish (s : LexState) : Except CompileError (List Token) :=
  if s.depth > 0 then s.cursor.fail .openBrackets
  else
    let newline := if s.inLine then [s.cursor.emptyToken .newline] else []
    let dedents := List.replicate (s.widths.length - 1) (s.cursor.emptyToken .dedent)
    .ok (newline ++ dedents ++ [s.cursor.emptyToken .eof])

/-- A blank line, with its line feed if it has one, and what follows. -/
def splitBlankLine (cs : List Char) : Nat × Bool × List Char :=
  let line := cs.takeWhile (· ≠ '\n')
  let rest := cs.dropWhile (· ≠ '\n')
  match rest with
  | [] => (Text.byteLength line, false, [])
  | _ :: after => (Text.byteLength line + 1, true, after)

theorem splitBlankLine_length (c : Char) (cs : List Char) :
    (splitBlankLine (c :: cs)).2.2.length < (c :: cs).length := by
  simp only [splitBlankLine]
  have h := (List.dropWhile_suffix (l := c :: cs) fun x : Char => decide (x ≠ '\n')).length_le
  split
  · simp
  · rename_i heq
    rw [heq] at h
    simp only [List.length_cons] at h ⊢
    omega

/-- The tokens of the source from some place on. -/
def scan (s : LexState) (cs : List Char) : Except CompileError (List Token) :=
  match cs with
  | [] => finish s
  | c :: rest =>
      if s.lineStart = true ∧ s.depth = 0 then
        let (width, blanks) := indentation 0 (c :: rest)
        if isBlankLine ((c :: rest).drop blanks) then
          let line := splitBlankLine (c :: rest)
          let cursor := if line.2.1 then s.cursor.skipLine line.1 else s.cursor.skip line.1
          scan { s with cursor } line.2.2
        else do
          let cursor := s.cursor.skip blanks
          let (widths, tokens) ← changeLevel cursor width s.widths
          let inLine := match tokens with
            | [] => s.inLine
            | t :: _ => t.kind = .indent
          let more ← scan { s with cursor, widths, lineStart := false, inLine }
            ((c :: rest).drop blanks)
          return tokens ++ more
      else if c = '\n' then
        let cursor := s.cursor.skipLine 1
        if s.depth = 0 then do
          let more ← scan { s with cursor, lineStart := true, inLine := false } rest
          return s.cursor.emptyToken .newline :: more
        else scan { s with cursor } rest
      else if c = '\\' ∧ ['\n'].isPrefixOf rest then
        scan { s with cursor := s.cursor.skipLine 2 } (rest.drop 1)
      else if c = '\\' ∧ ['\r', '\n'].isPrefixOf rest then
        scan { s with cursor := s.cursor.skipLine 3 } (rest.drop 2)
      else if c = '#' then
        let comment := rest.takeWhile (· ≠ '\n')
        scan { s with cursor := s.cursor.skip (1 + Text.byteLength comment) }
          (rest.drop comment.length)
      else if c = ' ' ∨ c = '\t' ∨ c = '\r' then
        scan { s with cursor := s.cursor.skip 1 } rest
      else
        match lexeme c rest with
        | .error fault => s.cursor.fail fault
        | .ok (kind, n) => do
            let bytes := c.utf8Size + Text.byteLength (rest.take n)
            let depth ← depthAfterToken s.cursor s.depth kind
            let more ← scan { s with cursor := s.cursor.skip bytes, depth, inLine := true }
              (rest.drop n)
            return s.cursor.token kind bytes :: more
termination_by 2 * cs.length + if s.lineStart then 1 else 0
decreasing_by
  · have := splitBlankLine_length c rest
    simp only [List.length_cons] at *
    split <;> omega
  · rename_i h _
    have : ((c :: rest).drop blanks).length ≤ (c :: rest).length := by simp
    simp only [h.1, if_true, if_false]
    omega
  all_goals
    simp only [List.length_drop, List.length_cons, if_true]
    omega

def tokenize (source : String) : Except CompileError (List Token) := scan {} source.toList

end PulseSequencer.Ppp
