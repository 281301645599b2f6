import PulseSequencer.Formula.Error
import PulseSequencer.Machine.Instruction
import PulseSequencer.Text.Utf8

/-
# PulseSequencer.Ppp.Token -- the words of a ppp source

ppp is the language in which pulse sequences are written: declarations,
procedures, and structured statements whose nesting is shown by indentation.  A
token is a byte range of the source with the line and column it starts at.
-/

namespace PulseSequencer.Ppp

set_option autoImplicit false

/-- A line and a column, both counted from one. -/
structure Position where
  line : Nat
  column : Nat
deriving Repr, DecidableEq, Inhabited

/-- Operators, brackets and separators. -/
inductive Mark where
  | shlAssign | shrAssign | doubleStar | equal | notEqual | lessEqual | greaterEqual
  | addAssign | subAssign | mulAssign | divAssign | andAssign | orAssign | shl | shr
  | openParen | closeParen | openBracket | closeBracket | openBrace | closeBrace | comma
  | colon | semicolon | assign | plus | minus | star | slash | percent | caret | less
  | greater
deriving Repr, DecidableEq

namespace Mark

/-- Longer marks stand before their beginnings. -/
def all : List Mark :=
  [.shlAssign, .shrAssign, .doubleStar, .equal, .notEqual, .lessEqual, .greaterEqual,
   .addAssign, .subAssign, .mulAssign, .divAssign, .andAssign, .orAssign, .shl, .shr,
   .openParen, .closeParen, .openBracket, .closeBracket, .openBrace, .closeBrace, .comma,
   .colon, .semicolon, .assign, .plus, .minus, .star, .slash, .percent, .caret, .less, .greater]

def chars : Mark → List Char
  | .shlAssign => ['<', '<', '=']
  | .shrAssign => ['>', '>', '=']
  | .doubleStar => ['*', '*']
  | .equal => ['=', '=']
  | .notEqual => ['!', '=']
  | .lessEqual => ['<', '=']
  | .greaterEqual => ['>', '=']
  | .addAssign => ['+', '=']
  | .subAssign => ['-', '=']
  | .mulAssign => ['*', '=']
  | .divAssign => ['/', '=']
  | .andAssign => ['&', '=']
  | .orAssign => ['|', '=']
  | .shl => ['<', '<']
  | .shr => ['>', '>']
  | .openParen => ['(']
  | .closeParen => [')']
  | .openBracket => ['[']
  | .closeBracket => [']']
  | .openBrace => ['{']
  | .closeBrace => ['}']
  | .comma => [',']
  | .colon => [':']
  | .semicolon => [';']
  | .assign => ['=']
  | .plus => ['+']
  | .minus => ['-']
  | .star => ['*']
  | .slash => ['/']
  | .percent => ['%']
  | .caret => ['^']
  | .less => ['<']
  | .greater => ['>']

def text (m : Mark) : String := String.ofList m.chars

def opens : Mark → Bool
  | .openParen | .openBracket | .openBrace => true
  | _ => false

def closes : Mark → Bool
  | .closeParen | .closeBracket | .closeBrace => true
  | _ => false

end Mark

inductive TokenKind where
  | name (s : String)
  | number
  | text
  | mark (m : Mark)
  | newline
  | indent
  | dedent
  | eof
deriving Repr, DecidableEq

/-- A token with its byte range. -/
structure Token where
  kind : TokenKind
  start : Nat
  stop : Nat
  position : Position
deriving Repr, DecidableEq

/-! ## Bytes to lines and columns -/

/-- The byte at which every line starts, in ascending order. -/
structure SourceMap where
  lineStarts : List Nat

namespace SourceMap

/-- The starts of the lines that follow the line feeds of a text. -/
def startsAfter (offset : Nat) : List Char → List Nat
  | [] => []
  | c :: rest =>
      let next := offset + c.utf8Size
      if c = '\n' then next :: startsAfter next rest else startsAfter next rest

def ofSource (source : String) : SourceMap := ⟨0 :: startsAfter 0 source.toList⟩

/-- The last line that starts at or before a byte, and the bytes since. -/
def position (m : SourceMap) (offset : Nat) : Position :=
  let before := m.lineStarts.takeWhile (· ≤ offset)
  ⟨max before.length 1, offset - before.getLast?.getD 0 + 1⟩

end SourceMap

/-- The text of a byte range. -/
def slice (source : List Char) (start stop : Nat) : List Char :=
  Text.takeBytes (stop - start) (Text.dropBytes start source)

end PulseSequencer.Ppp
