import PulseSequencer.Document.Yaml.Scalar

/-
# PulseSequencer.Document.Yaml.Token -- the words of a document

Besides scalars a document has marks, tags, anchors and directives.  The ends of
blocks are tokens too, although only the indentation shows them.
-/

namespace PulseSequencer.Yaml

set_option autoImplicit false

/-- How a text is written. -/
inductive Style where
  | plain
  | quoted
  | literal
  | folded
deriving Repr, DecidableEq

inductive Token where
  | version (major minor : Nat)
  /-- What a handle stands for in tags. -/
  | handle (name start : String)
  | documentStart
  | documentEnd
  | sequenceBlock
  | mappingBlock
  | blockEnd
  | leftBracket
  | rightBracket
  | leftBrace
  | rightBrace
  | comma
  | item
  | key
  | value
  /-- Repeats the node that has the anchor of a number. -/
  | alias (anchor : Nat)
  | anchor (number : Nat)
  | tag (handle suffix : String)
  | scalar (text : String) (style : Style)
deriving Repr, DecidableEq

/-! ## Anchors -/

/-- The name of an anchor and what follows it, which is a blank, an end or one of a
few marks. -/
def anchorName? (cs : List Char) : Option (List Char × List Char) :=
  let name := cs.takeWhile isNameChar
  let rest := cs.dropWhile isNameChar
  let marks : List Char := ['?', ':', ',', ']', '}', '%', '@', '\x60']
  if name ≠ [] ∧ (endsWord rest ∨ rest.head?.any marks.contains) then some (name, rest) else none

/-! ## Tags -/

/-- The characters of tags; some marks belong to them only where brackets enclose
the tag. -/
def isTagChar (isEnclosed : Bool) (c : Char) : Bool :=
  isNameChar c || (";/?:@&=+$.!~*'()%".toList).contains c ||
    (isEnclosed && [',', '[', ']'].contains c)

/-- The octet that a percent sign and two digits stand for, and what follows them. -/
def octet? : List Char → Option (Nat × List Char)
  | '%' :: a :: b :: rest =>
      if isHexDigit a ∧ isHexDigit b then some (hexValue [a, b], rest) else none
  | _ => none

/-- Reads the octets that go on with a character; `code` is what it has so far. -/
def moreOctets? : Nat → Nat → List Char → Option (Nat × List Char)
  | 0, code, cs => some (code, cs)
  | n + 1, code, cs => do
      let (octet, rest) ← octet? cs
      if octet / 64 = 2 then moreOctets? n (64 * code + octet % 64) rest else none

/-- The number of octets that follow a first one, and its part of the code point. -/
def firstOctet? (octet : Nat) : Option (Nat × Nat) :=
  if octet < 0x80 then some (0, octet)
  else if octet / 32 = 6 then some (1, octet % 32)
  else if octet / 16 = 14 then some (2, octet % 16)
  else if octet / 8 = 30 then some (3, octet % 8)
  else none

/-- The character that octets behind percent signs spell, and what follows them. -/
def spelledChar? (cs : List Char) : Option (Char × List Char) := do
  let (octet, rest) ← octet? cs
  let (more, start) ← firstOctet? octet
  let (code, rest) ← moreOctets? more start rest
  let c := Char.ofNat code
  return (if code.isValidChar ∧ c.utf8Size = more + 1 then c else '\ufffd', rest)

/-- Replaces the characters that are spelled by octets. -/
def unspell? : Nat → List Char → Option (List Char)
  | 0, _ => none
  | _, [] => some []
  | fuel + 1, c :: rest =>
      if c = '%' then do
        let (spelled, rest) ← spelledChar? (c :: rest)
        return spelled :: (← unspell? fuel rest)
      else (unspell? fuel rest).map (c :: ·)

/-- The longest text of characters of tags, and what follows it. -/
def tagText? (isEnclosed : Bool) (cs : List Char) : Option (List Char × List Char) := do
  let written := cs.takeWhile (isTagChar isEnclosed)
  return (← unspell? (written.length + 1) written, cs.dropWhile (isTagChar isEnclosed))

/-- A tag from behind its exclamation mark on, without what must follow it.  One in
angle brackets has no handle, and neither has an exclamation mark alone. -/
def tag? (cs : List Char) : Option (Token × List Char) := do
  match cs with
  | '<' :: rest =>
      match ← tagText? true rest with
      | (text, '>' :: rest) =>
          if text ≠ [] then return (.tag "" (String.ofList text), rest) else none
      | _ => none
  | cs =>
      let name := cs.takeWhile isNameChar
      match cs.dropWhile isNameChar with
      | '!' :: rest =>
          let (suffix, rest) ← tagText? false rest
          if suffix ≠ [] then
            return (.tag (String.ofList ('!' :: name ++ ['!'])) (String.ofList suffix), rest)
          else none
      | rest =>
          let (more, rest) ← tagText? false rest
          match name ++ more with
          | [] => return (.tag "" "!", rest)
          | suffix => return (.tag "!" (String.ofList suffix), rest)

/-! ## Directives -/

/-- A number of at most nine digits, and what follows it. -/
def versionNumber? (cs : List Char) : Option (Nat × List Char) :=
  let digits := cs.takeWhile Char.isDigit
  if digits ≠ [] ∧ digits.length ≤ 9 then
    some (digits.foldl (fun n c => 10 * n + (c.toNat - 48)) 0, cs.dropWhile Char.isDigit)
  else none

def version? (cs : List Char) : Option (Token × List Char) := do
  match ← versionNumber? (cs.dropWhile isBlank) with
  | (major, '.' :: rest) =>
      let (minor, rest) ← versionNumber? rest
      return (.version major minor, rest)
  | _ => none

/-- A handle, which is an exclamation mark or a name between two of them, and what it
stands for. -/
def handle? (cs : List Char) : Option (Token × List Char) := do
  let (name, rest) ← match cs.dropWhile isBlank with
    | '!' :: rest =>
        let name := rest.takeWhile isNameChar
        match name, rest.dropWhile isNameChar with
        | _, '!' :: rest => some ('!' :: name ++ ['!'], rest)
        | [], rest => some (['!'], rest)
        | _, _ => none
    | _ => none
  if rest.head?.any isBlank then
    let (start, rest) ← tagText? true (rest.dropWhile isBlank)
    if start ≠ [] ∧ endsWord rest then
      return (.handle (String.ofList name) (String.ofList start), rest)
    else none
  else none

/-- A directive from behind its percent sign on, and the text behind its line. -/
def directive? (cs : List Char) : Option (Token × List Char) := do
  let rest := cs.dropWhile isNameChar
  let (token, rest) ← match String.ofList (cs.takeWhile isNameChar) with
    | "YAML" => if endsWord rest then version? rest else none
    | "TAG" => if endsWord rest then handle? rest else none
    | _ => none
  return (token, ← lineEnd? rest)

end PulseSequencer.Yaml
