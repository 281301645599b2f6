/-
# PulseSequencer.Text.Utf8 -- texts as bytes

Positions in a source text count the bytes of its UTF-8 form.  Bytes that are no UTF-8
become replacement characters, one for every longest beginning of a character that is
cut off, and one for every other byte.
-/

namespace PulseSequencer.Text

set_option autoImplicit false

/-- The number of bytes of a piece of text. -/
def byteLength : List Char → Nat
  | [] => 0
  | c :: rest => c.utf8Size + byteLength rest

@[simp] theorem byteLength_append (a b : List Char) :
    byteLength (a ++ b) = byteLength a + byteLength b := by
  induction a with
  | nil => simp [byteLength]
  | cons c rest ih => simp [byteLength, ih, Nat.add_assoc]

/-- The text behind the first `n` bytes. -/
def dropBytes (n : Nat) : List Char → List Char
  | [] => []
  | c :: rest => if n = 0 then c :: rest else dropBytes (n - c.utf8Size) rest

/-- The text of the first `n` bytes. -/
def takeBytes (n : Nat) : List Char → List Char
  | [] => []
  | c :: rest => if n = 0 then [] else c :: takeBytes (n - c.utf8Size) rest

/-- The bytes of a text. -/
def utf8 (text : String) : List UInt8 := text.toUTF8.toList

/-! ## Reading bytes that may be damaged -/

/-- How a character of several bytes goes on. -/
structure LeadForm where
  /-- The bits of the lead byte that belong to the character. -/
  bits : Nat
  /-- The range of the second byte. -/
  low : Nat := 0x80
  high : Nat := 0xbf
  /-- How many bytes follow the second one. -/
  more : Nat
deriving Repr, DecidableEq

/-- The form of a character by its first byte.  The ranges leave out what has a
shorter form, the surrogates, and what lies beyond the last code point. -/
def leadForm? (lead : Nat) : Option LeadForm :=
  if lead < 0xc2 then none
  else if lead < 0xe0 then some { bits := lead - 0xc0, more := 0 }
  else if lead = 0xe0 then some { bits := 0, low := 0xa0, more := 1 }
  else if lead = 0xed then some { bits := 0xd, high := 0x9f, more := 1 }
  else if lead < 0xf0 then some { bits := lead - 0xe0, more := 1 }
  else if lead = 0xf0 then some { bits := 0, low := 0x90, more := 2 }
  else if lead < 0xf4 then some { bits := lead - 0xf0, more := 2 }
  else if lead = 0xf4 then some { bits := 4, high := 0x8f, more := 2 }
  else none

def replacement : Char := '\ufffd'

/-- A byte that follows others in a character. -/
def isContinuation (b : UInt8) : Bool := 0x80 ≤ b && b ≤ 0xbf

/-- The first character of bytes that begin with `lead`, and how many of the bytes
behind `lead` belong to it. -/
def firstChar (lead : UInt8) (rest : List UInt8) : Char × Nat :=
  if lead < 0x80 then (Char.ofNat lead.toNat, 0)
  else match leadForm? lead.toNat, rest with
    | some form, second :: rest =>
        if second.toNat < form.low ∨ form.high < second.toNat then (replacement, 0)
        else
          let others := (rest.take form.more).takeWhile isContinuation
          if others.length < form.more then (replacement, others.length + 1)
          else
            let code := (second :: others).foldl (fun n b => 64 * n + b.toNat % 64) form.bits
            (Char.ofNat code, others.length + 1)
    | _, _ => (replacement, 0)

def decodeUtf8 : List UInt8 → List Char
  | [] => []
  | b :: rest => (firstChar b rest).1 :: decodeUtf8 (rest.drop (firstChar b rest).2)
termination_by bytes => bytes.length
decreasing_by simp only [List.length_drop, List.length_cons]; omega

end PulseSequencer.Text
