import PulseSequencer.Document.Yaml.Cursor

/-
# PulseSequencer.Document.Yaml.Scalar -- the written forms of a text

A text is written plainly, in single or double quotes, or as a block of lines that
are further in.  The margin of a place is the least column of what belongs to the
innermost block around it.
-/

namespace PulseSequencer.Yaml

set_option autoImplicit false

/-- A text, and by how many characters it is written. -/
structure Written where
  text : List Char
  size : Nat
deriving Repr, DecidableEq

/-- Puts `cs`, which is written by `size` characters, before a text. -/
def Written.after (size : Nat) (cs : List Char) (w : Written) : Written :=
  ⟨cs ++ w.text, size + w.size⟩

/-! ## Quotes -/

/-- The characters that a letter behind a backslash stands for. -/
def simpleEscapes : List (Char × Char) :=
  [('0', '\x00'), ('a', '\x07'), ('b', '\x08'), ('t', '\t'), ('\t', '\t'), ('n', '\n'),
    ('v', '\x0b'), ('f', '\x0c'), ('r', '\r'), ('e', '\x1b'), (' ', ' '), ('"', '"'), ('/', '/'),
    ('\\', '\\'), ('N', '\u0085'), ('_', '\u00a0'), ('L', '\u2028'), ('P', '\u2029')]

/-- The letters that announce a code point, and the number of its digits. -/
def codeEscapes : List (Char × Nat) := [('x', 2), ('u', 4), ('U', 8)]

/-- The character that the text behind a backslash begins with, and how many
characters spell it. -/
def escape? : List Char → Option (Char × Nat)
  | [] => none
  | c :: rest =>
      match simpleEscapes.lookup c, codeEscapes.lookup c with
      | some escaped, _ => some (escaped, 1)
      | none, some width =>
          let digits := rest.take width
          let code := hexValue digits
          if digits.length = width ∧ digits.all isHexDigit ∧ code.isValidChar then
            some (Char.ofNat code, width + 1)
          else none
      | none, none => none

/-- Whether a text in quotes may go on behind a gap: no marker may stand there. -/
def mayFollow (gap after : List Char) : Bool :=
  !(gap.getLast?.any isBreak && isMarker after)

/-- The text up to a single quote, which is counted; two of them are one. -/
def singleQuoted? (cs : List Char) : Option Written :=
  match cs with
  | [] => none
  | '\'' :: '\'' :: rest => (singleQuoted? rest).map (.after 2 ['\''])
  | '\'' :: _ => some ⟨[], 1⟩
  | c :: rest =>
      if isGap c then
        let gap := c :: rest.takeWhile isGap
        let after := rest.dropWhile isGap
        if mayFollow gap after then
          (singleQuoted? after).map (.after gap.length (joined gap))
        else none
      else (singleQuoted? rest).map (.after 1 [c])
termination_by cs.length
decreasing_by
  · simp only [List.length_cons]; omega
  · have := length_dropWhile_isGap_le rest
    simp only [List.length_cons]; omega
  · simp

/-- The text up to a double quote, which is counted.  A backslash before a line break
takes that away together with the blanks behind it. -/
def doubleQuoted? (cs : List Char) : Option Written :=
  match cs with
  | [] => none
  | '"' :: _ => some ⟨[], 1⟩
  | '\\' :: rest =>
      if rest.head?.any isBreak then
        let gap := rest.takeWhile isGap
        let after := rest.dropWhile isGap
        if mayFollow gap after then
          (doubleQuoted? after).map (.after (gap.length + 1) (gap.filter isBreak).tail)
        else none
      else
        match escape? rest with
        | some (c, size) => (doubleQuoted? (rest.drop size)).map (.after (size + 1) [c])
        | none => none
  | c :: rest =>
      if isGap c then
        let gap := c :: rest.takeWhile isGap
        let after := rest.dropWhile isGap
        if mayFollow gap after then
          (doubleQuoted? after).map (.after gap.length (joined gap))
        else none
      else (doubleQuoted? rest).map (.after 1 [c])
termination_by cs.length
decreasing_by
  · have := length_dropWhile_isGap_le rest
    simp only [List.length_cons]; omega
  · simp only [List.length_drop, List.length_cons]; omega
  · have := length_dropWhile_isGap_le rest
    simp only [List.length_cons]; omega
  · simp

/-! ## Plain texts -/

def isFlowMark (c : Char) : Bool := [',', '[', ']', '{', '}'].contains c

/-- Whether a plain text begins here.  Marks do not begin one, but a dash does that
is not followed by a blank, and outside of brackets a question mark or a colon does
that is followed by a word. -/
def startsPlain (inBrackets : Bool) : List Char → Bool
  | [] => false
  | c :: rest =>
      let marks : List Char := ['-', '?', ':', ',', '[', ']', '{', '}', '#', '&', '*', '!', '|',
        '>', '\'', '"', '%', '@', '\x60']
      !(isGap c || marks.contains c) || (c == '-' && !(rest.head?.any isBlank)) ||
        (!inBrackets && (c == '?' || c == ':') && !endsWord rest)

/-- Whether a plain text ends before these characters. -/
def endsPlain (inBrackets : Bool) : List Char → Bool
  | [] => true
  | ':' :: rest => endsWord rest
  | c :: _ => inBrackets && isFlowMark c

/-- Whether a tab stands left of the margin in a line that begins in a gap. -/
def hasTabInMargin (margin : Nat) (gap : List Char) : Bool :=
  (gapLines gap).tail.any fun line => (line.take margin).contains '\t'

/-- A plain text.  The gap behind it is counted. -/
structure PlainText extends Written where
  /-- Whether that gap holds a line break. -/
  endsLine : Bool
deriving Repr, DecidableEq

def PlainText.after (size : Nat) (cs : List Char) (p : PlainText) : PlainText :=
  { p with toWritten := p.toWritten.after size cs }

/-- Reads on in a plain text.  In brackets no mark may follow a colon directly. -/
def plain? (inBrackets : Bool) (margin : Nat) (cs : List Char) : Option PlainText :=
  match cs with
  | [] => some ⟨⟨[], 0⟩, false⟩
  | c :: rest =>
      if isGap c then
        let gap := c :: rest.takeWhile isGap
        let after := rest.dropWhile isGap
        let hasBreak := gap.any isBreak
        let isOut := hasBreak && ((!inBrackets && columnBehind gap < margin) ||
          (columnBehind gap == 0 && isMarker after))
        if hasTabInMargin margin gap then none
        else if isOut || after.head? == some '#' || endsPlain inBrackets after then
          some ⟨⟨[], gap.length⟩, hasBreak⟩
        else (plain? inBrackets margin after).map (.after gap.length (joined gap))
      else if inBrackets && c == ':' && rest.head?.any fun d => isFlowMark d || d == '?' then none
      else if endsPlain inBrackets (c :: rest) then some ⟨⟨[], 0⟩, false⟩
      else (plain? inBrackets margin rest).map (.after 1 [c])
termination_by cs.length
decreasing_by
  · have := length_dropWhile_isGap_le rest
    simp only [List.length_cons]; omega
  · simp

/-! ## Blocks of lines -/

/-- What becomes of the line breaks at the end of a block. -/
inductive Chomping where
  | strip
  /-- One of them is kept. -/
  | clip
  | keep
deriving Repr, DecidableEq

def chomping? : Char → Option Chomping
  | '+' => some .keep
  | '-' => some .strip
  | _ => none

/-- What stands on the first line of a block. -/
structure BlockHeader where
  chomping : Chomping := .clip
  /-- How much further in the lines are, if it is told. -/
  offset : Option Nat := none
deriving Repr, DecidableEq

/-- The digits but zero. -/
def offset? (c : Char) : Option Nat :=
  if c.isDigit ∧ c ≠ '0' then some (c.toNat - '0'.toNat) else none

/-- The signs of a header in either order, and what follows them. -/
def headerSigns : List Char → BlockHeader × List Char
  | [] => ({}, [])
  | c :: rest =>
      match chomping? c, offset? c with
      | some chomping, _ =>
          match rest.head?.bind offset? with
          | some offset => (⟨chomping, some offset⟩, rest.tail)
          | none => ({ chomping }, rest)
      | none, some offset =>
          match rest.head?.bind chomping? with
          | some chomping => (⟨chomping, some offset⟩, rest.tail)
          | none => ({ offset := some offset }, rest)
      | none, none => ({}, c :: rest)

/-- What follows the line end before which only blanks and a comment stand. -/
def lineEnd? (cs : List Char) : Option (List Char) :=
  let rest := match cs.dropWhile isBlank with
    | '#' :: comment => comment.dropWhile fun c => !isBreak c
    | rest => rest
  match rest with
  | [] => some []
  | c :: after => if isBreak c then some after else none

/-- The empty lines before a line of a block. -/
structure BlockGap where
  breaks : List Char
  /-- The greatest column of a text or line break behind blanks. -/
  widest : Nat
  /-- The column of what follows. -/
  column : Nat
  rest : List Char
deriving Repr, DecidableEq

/-- Passes over empty lines and over blanks up to the indentation, or over all blanks
if it is not known yet.  No tab may stand among these. -/
def blockGap? (indentation : Option Nat) : (column : Nat) → List Char → Option BlockGap
  | column, [] => some ⟨[], column, column, []⟩
  | column, c :: rest =>
      let isMargin := indentation.all fun n => column < n
      if isMargin && c == ' ' then blockGap? indentation (column + 1) rest
      else if isMargin && c == '\t' then none
      else if isBreak c then
        (blockGap? indentation 0 rest).map fun gap =>
          { gap with breaks := c :: gap.breaks, widest := max column gap.widest }
      else some ⟨[], column, column, c :: rest⟩

/-- What is known of a block at a line: the break before its empty lines, and whether
the line before those began with a blank. -/
structure BlockLine where
  lineBreak : List Char := []
  wasBlank : Bool := false

/-- Reads the lines of a block from the empty ones before a line on, and gives the
text and what follows it. -/
def blockLines? (folds : Bool) (chomping : Chomping) (indentation : Nat) :
    Nat → BlockLine → BlockGap → Option (List Char × List Char)
  | 0, _, _ => none
  | fuel + 1, before, gap =>
      if gap.column = indentation ∧ gap.rest ≠ [] then
        let isBlankLine := gap.rest.head?.any isBlank
        let breaks :=
          if folds && before.lineBreak == ['\n'] && !before.wasBlank && !isBlankLine then
            if gap.breaks.isEmpty then [' '] else gap.breaks
          else before.lineBreak ++ gap.breaks
        let line := gap.rest.takeWhile fun c => !isBreak c
        let after := gap.rest.dropWhile fun c => !isBreak c
        do
          let next ← blockGap? (some indentation) 0 after.tail
          let (text, rest) ←
            blockLines? folds chomping indentation fuel ⟨after.take 1, isBlankLine⟩ next
          return (breaks ++ line ++ text, rest)
      else
        let kept := match chomping with
          | .strip => []
          | .clip => before.lineBreak
          | .keep => before.lineBreak ++ gap.breaks
        some (kept, gap.rest)

/-- The text of a block from behind its sign on, and what follows it.  Without an offset its lines
are as far in as the first that is not empty, but at least at the margin and one column. -/
def block? (folds : Bool) (margin : Nat) (cs : List Char) : Option (List Char × List Char) := do
  let (header, rest) := headerSigns cs
  let body ← lineEnd? rest
  let told := header.offset.map fun offset => margin - 1 + offset
  let gap ← blockGap? told 0 body
  let indentation := told.getD (max gap.widest (max margin 1))
  blockLines? folds header.chomping indentation (body.length + 1) {} gap

end PulseSequencer.Yaml
