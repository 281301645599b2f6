import PulseSequencer.Number.Notation
import PulseSequencer.Text.Quoted

/-
# PulseSequencer.Formula.Token -- the words of a formula

A formula is a sequence of numbers, texts, names and symbols, each with the byte
at which it starts, closed by an end mark.
-/

namespace PulseSequencer.Formula

set_option autoImplicit false

/-- Operators and brackets. -/
inductive Symbol where
  | doubleStar | equal | notEqual | lessEqual | greaterEqual
  | plus | minus | star | slash | percent | caret | less | greater
  | openParen | closeParen | openBracket | closeBracket | openBrace | closeBrace
  | comma | colon
deriving Repr, DecidableEq

namespace Symbol

/-- Longer symbols stand before their beginnings. -/
def all : List Symbol :=
  [.doubleStar, .equal, .notEqual, .lessEqual, .greaterEqual,
   .plus, .minus, .star, .slash, .percent, .caret, .less, .greater,
   .openParen, .closeParen, .openBracket, .closeBracket, .openBrace, .closeBrace,
   .comma, .colon]

def chars : Symbol → List Char
  | .doubleStar => ['*', '*']
  | .equal => ['=', '=']
  | .notEqual => ['!', '=']
  | .lessEqual => ['<', '=']
  | .greaterEqual => ['>', '=']
  | .plus => ['+']
  | .minus => ['-']
  | .star => ['*']
  | .slash => ['/']
  | .percent => ['%']
  | .caret => ['^']
  | .less => ['<']
  | .greater => ['>']
  | .openParen => ['(']
  | .closeParen => [')']
  | .openBracket => ['[']
  | .closeBracket => [']']
  | .openBrace => ['{']
  | .closeBrace => ['}']
  | .comma => [',']
  | .colon => [':']

def text (s : Symbol) : String := String.ofList s.chars

end Symbol

inductive Token where
  | int (n : Int)
  | float (x : Float)
  | text (s : String)
  | name (s : String)
  | symbol (s : Symbol)
  | finish
deriving Repr

/-- A token and the byte at which it starts. -/
structure Located where
  token : Token
  offset : Nat

/-- What is wrong with the text of a formula. -/
inductive SyntaxFault where
  | strayLetter
  | strayCharacter (c : Char)
  | invalidHex
  | invalidNumber
  | unterminatedText
  | expected (s : Symbol)
  | unexpected (t : Token)
  | unknownUnit (name : String)
deriving Repr

/-- A token in the words of a message. -/
def Token.complaint : Token → String
  | .finish => "unexpected end of expression"
  | .symbol s => "unexpected '" ++ s.text ++ "'"
  | .name s => "unexpected identifier '" ++ s ++ "'"
  | .int n => "unexpected token Int(" ++ toString n ++ ")"
  | .float x => "unexpected token Float(" ++ Number.quoted x ++ ")"
  | .text s => "unexpected token Str(" ++ Text.quote s ++ ")"

def SyntaxFault.message : SyntaxFault → String
  | .strayLetter => "unexpected character"
  | .strayCharacter c => "unexpected character '" ++ String.ofList [c] ++ "'"
  | .invalidHex => "invalid hex literal"
  | .invalidNumber => "invalid number"
  | .unterminatedText => "unterminated string literal"
  | .expected s => "expected '" ++ s.text ++ "'"
  | .unexpected t => t.complaint
  | .unknownUnit name => "unknown unit '" ++ name ++ "'"

end PulseSequencer.Formula
