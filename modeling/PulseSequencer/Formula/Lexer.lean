import PulseSequencer.Formula.Error
import PulseSequencer.Number.Binary
import PulseSequencer.Number.Reader
import PulseSequencer.Text.Alphanumeric
import PulseSequencer.Text.Blank
import PulseSequencer.Text.Utf8

/-
# PulseSequencer.Formula.Lexer -- from text to tokens

`lexeme` reads one token from its first character and tells how many more
characters belong to it; `tokenize` repeats that, so the token list never skips
anything but blanks.
-/

namespace PulseSequencer.Formula

set_option autoImplicit false

/-- A lexeme: its token and the number of characters after the first. -/
abbrev Lexeme := Except SyntaxFault (Token × Nat)

def isSpace (c : Char) : Bool :=
  c == ' ' || c == '\t' || c == '\n' || c == '\r' || c == '\x0c'

def isAscii (c : Char) : Bool := c.toNat < 0x80

def isHexDigit (c : Char) : Bool :=
  c.isDigit || ('a' ≤ c && c ≤ 'f') || ('A' ≤ c && c ≤ 'F')

def hexValue (c : Char) : Nat :=
  if c.isDigit then c.toNat - '0'.toNat
  else if 'a' ≤ c then c.toNat - 'a'.toNat + 10
  else c.toNat - 'A'.toNat + 10

def isNamePart (c : Char) : Bool := Text.isAlphanumeric c || c == '_' || c == 'µ'

/-! ## Numbers -/

def withoutUnderscores (cs : List Char) : List Char := cs.filter (· ≠ '_')

/-- The digits of a hexadecimal number are a bit pattern of 64 bits, read as a
signed number. -/
def hexNumber? (digits : List Char) : Option Int :=
  let value := digits.foldl (fun n c => 16 * n + hexValue c) 0
  if digits ≠ [] ∧ value < pow2 64 then some ((Int.ofNat value).bmod (pow2 64)) else none

/-- How many characters an exponent takes: its mark, a sign, and digits. -/
def exponentLength? (mark : List Char) : Option Nat :=
  match mark with
  | [] => none
  | _ :: rest =>
      let (sign, digits) := match rest with
        | '+' :: tail | '-' :: tail => (1, tail)
        | other => (0, other)
      match (digits.takeWhile Char.isDigit).length with
      | 0 => none
      | n => some (1 + sign + n)

/-- How many characters of a decimal number stand at the front, and whether it has
a point or an exponent. -/
def decimalExtent (pointSeen : Bool) : List Char → Nat × Bool
  | [] => (0, pointSeen)
  | c :: rest =>
      if c.isDigit || c == '_' then
        let (n, isReal) := decimalExtent pointSeen rest
        (n + 1, isReal)
      else if c = '.' ∧ pointSeen = false then
        let (n, isReal) := decimalExtent true rest
        (n + 1, isReal)
      else if c = 'e' ∨ c = 'E' then
        match exponentLength? (c :: rest) with
        | some n => (n, true)
        | none => (0, pointSeen)
      else (0, pointSeen)

def floatToken (digits : List Char) : Except SyntaxFault Token :=
  match Number.readFloat? digits with
  | some x => .ok (.float x)
  | none => .error .invalidNumber

/-- A whole number outside the signed 64-bit range becomes a float. -/
def decimalToken (digits : List Char) (isReal : Bool) : Except SyntaxFault Token :=
  if isReal then floatToken digits
  else match Number.readInt64? digits with
    | some n => .ok (.int n)
    | none => floatToken digits

def numberLexeme (c : Char) (rest : List Char) : Lexeme :=
  match c, rest with
  | '0', x :: tail =>
      if x = 'x' ∨ x = 'X' then
        let digits := tail.takeWhile fun d => isHexDigit d || d == '_'
        match hexNumber? (withoutUnderscores digits) with
        | some n => .ok (.int n, digits.length + 1)
        | none => .error .invalidHex
      else decimal (c :: rest)
  | _, _ => decimal (c :: rest)
where
  decimal (cs : List Char) : Lexeme := do
    let (n, isReal) := decimalExtent false cs
    let token ← decimalToken (withoutUnderscores (cs.take n)) isReal
    return (token, n - 1)

/-! ## Other tokens -/

def nameLexeme (c : Char) (rest : List Char) : Lexeme :=
  if isNamePart c then
    let more := rest.takeWhile isNamePart
    .ok (.name (String.ofList (c :: more)), more.length)
  else .error .strayLetter

/-- A text runs to the next quote of the same kind. -/
def textLexeme (quote : Char) (rest : List Char) : Lexeme :=
  match Text.splitFirst? (· = quote) rest with
  | some (body, _) => .ok (.text (String.ofList body), body.length + 1)
  | none => .error .unterminatedText

def symbolLexeme (c : Char) (rest : List Char) : Lexeme :=
  match Symbol.all.find? fun s => s.chars.isPrefixOf (c :: rest) with
  | some s => .ok (.symbol s, s.chars.length - 1)
  | none => .error (.strayCharacter c)

def startsNumber (c : Char) (rest : List Char) : Bool :=
  c.isDigit || (c == '.' && rest.head?.any Char.isDigit)

def lexeme (c : Char) (rest : List Char) : Lexeme :=
  if startsNumber c rest then numberLexeme c rest
  else if c.isAlpha || c == '_' || !isAscii c then nameLexeme c rest
  else if c = '"' ∨ c = '\'' then textLexeme c rest
  else symbolLexeme c rest

/-- The tokens of a text that starts at byte `offset`. -/
def tokensFrom (offset : Nat) (cs : List Char) : Except FormulaError (List Located) :=
  match cs with
  | [] => .ok [⟨.finish, offset⟩]
  | c :: rest =>
      if isSpace c then tokensFrom (offset + c.utf8Size) rest
      else
        match lexeme c rest with
        | .error fault => .error (.malformed offset fault)
        | .ok (token, n) => do
            let more ← tokensFrom (offset + c.utf8Size + Text.byteLength (rest.take n)) (rest.drop n)
            return ⟨token, offset⟩ :: more
termination_by cs.length
decreasing_by
  all_goals simp only [List.length_drop, List.length_cons]; omega

def tokenize (text : String) : Except FormulaError (List Located) := tokensFrom 0 text.toList

end PulseSequencer.Formula
