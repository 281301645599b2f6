import PulseSequencer.Text.Blank

/-
# PulseSequencer.Document.Yaml.Cursor -- characters and places of a document

A cursor is a place in a document together with the text behind it.  All line ends
are read as line feeds, but the separators of lines and of paragraphs keep their
identity.
-/

namespace PulseSequencer.Yaml

set_option autoImplicit false

/-! ## Characters -/

/-- The characters that may stand in a document. -/
def isAllowed (c : Char) : Bool :=
  Text.within [0x9, 0xA, 0xD, 0xD, 0x20, 0x7E, 0x85, 0x85, 0xA0, 0xFFFD, 0x10000, 0x10FFFF] c.toNat

/-- Line feeds and the separators of lines and of paragraphs. -/
def isBreak (c : Char) : Bool := c == '\n' || c == '\u2028' || c == '\u2029'

def isBlank (c : Char) : Bool := c == ' ' || c == '\t'

/-- What may stand between two words. -/
def isGap (c : Char) : Bool := isBlank c || isBreak c

/-- Characters of handles and of names of anchors. -/
def isNameChar (c : Char) : Bool := c.isAlphanum || c == '-' || c == '_'

def isHexDigit (c : Char) : Bool :=
  c.isDigit || ('a' ≤ c.toLower && c.toLower ≤ 'f')

def hexValue (digits : List Char) : Nat :=
  digits.foldl (fun n c => 16 * n + (if c.isDigit then c.toNat - 48 else c.toLower.toNat - 87)) 0

/-- Makes line feeds of all line ends. -/
def unifyBreaks : List Char → List Char
  | [] => []
  | '\r' :: '\n' :: rest => '\n' :: unifyBreaks rest
  | c :: rest => (if c = '\r' ∨ c = '\u0085' then '\n' else c) :: unifyBreaks rest

/-- Whether a word ends before a text. -/
def endsWord (cs : List Char) : Bool := (cs.head?.map isGap).getD true

/-- Whether a line with this text marks the start or the end of a document. -/
def isMarker : List Char → Bool
  | '-' :: '-' :: '-' :: rest | '.' :: '.' :: '.' :: rest => endsWord rest
  | _ => false

/-! ## Gaps -/

/-- What a gap between two words of a scalar stands for.  Without a line break it
stands for itself; one line feed is a blank, and the first of several is left out. -/
def joined (gap : List Char) : List Char :=
  match gap.filter isBreak with
  | [] => gap
  | ['\n'] => [' ']
  | '\n' :: breaks => breaks
  | breaks => breaks

/-- The lines that a gap ends, begins or holds. -/
def gapLines (gap : List Char) : List (List Char) := Text.splitAll isBreak gap

/-- The column behind a gap that holds a line break. -/
def columnBehind (gap : List Char) : Nat := ((gapLines gap).getLast?.getD []).length

theorem length_dropWhile_isGap_le (cs : List Char) : (cs.dropWhile isGap).length ≤ cs.length :=
  (List.dropWhile_suffix _).length_le

/-! ## Cursors -/

structure Cursor where
  /-- What follows the place. -/
  rest : List Char
  /-- The number of characters before it. -/
  index : Nat := 0
  line : Nat := 0
  column : Nat := 0
deriving Repr, DecidableEq

namespace Cursor

/-- The start of a text; none if it holds a character that may not stand there.  A
byte order mark counts as a column. -/
def ofText? (text : String) : Option Cursor :=
  let cs := text.toList
  if cs.all isAllowed then
    match unifyBreaks cs with
    | '\ufeff' :: rest => some { rest, index := 1, column := 1 }
    | rest => some { rest }
  else none

/-- The place behind the next character. -/
def next (c : Cursor) : Cursor :=
  match c.rest with
  | [] => c
  | first :: rest =>
      if isBreak first then ⟨rest, c.index + 1, c.line + 1, 0⟩
      else ⟨rest, c.index + 1, c.line, c.column + 1⟩

/-- The place behind the next `n` characters. -/
def advance : Nat → Cursor → Cursor
  | 0, c => c
  | n + 1, c => advance n c.next

/-- The place before `rest`, which is the end of what follows `c`. -/
def goTo (rest : List Char) (c : Cursor) : Cursor :=
  c.advance (c.rest.length - rest.length)

end Cursor

end PulseSequencer.Yaml
