import PulseSequencer.Document.Yaml.Token

/-
# PulseSequencer.Document.Yaml.Lexer -- the tokens of a document

Most tokens are read where they stand.  But whether a text is a key shows only at the
colon behind it, so the lexer keeps the place where a key may have begun, and puts a
token before it when the colon comes.  Blocks open where the text goes further in
than before, and they close where it goes back.
-/

namespace PulseSequencer.Yaml

set_option autoImplicit false

/-- A place where a key may have begun. -/
structure KeyPlace where
  /-- The number of tokens before it. -/
  number : Nat
  index : Nat
  line : Nat
  column : Nat
  /-- Whether only a key may stand there. -/
  isRequired : Bool
deriving Repr, DecidableEq

structure Lexer where
  cursor : Cursor
  /-- The columns of the open blocks, the innermost first. -/
  blocks : List Nat := []
  /-- The place of a key between the innermost brackets. -/
  key : Option KeyPlace := none
  /-- The same outside of each open bracket, the innermost first. -/
  outerKeys : List (Option KeyPlace) := []
  /-- Whether a key may begin here. -/
  mayBeginKey : Bool := true
  /-- The newest token first. -/
  tokens : List Token := []
  /-- The number of tokens. -/
  count : Nat := 0
  /-- The numbers of anchors, the newest first. -/
  anchors : List (List Char × Nat) := []

namespace Lexer

def inBrackets (l : Lexer) : Bool := !l.outerKeys.isEmpty

/-- The least column of what belongs to the innermost block. -/
def margin (l : Lexer) : Nat := (l.blocks.head?.map (· + 1)).getD 0

/-- Puts a token behind the first `number`. -/
def insert (number : Nat) (t : Token) (l : Lexer) : Lexer :=
  let later := l.count - number
  { l with tokens := l.tokens.take later ++ t :: l.tokens.drop later, count := l.count + 1 }

/-- Pushes the token that ends at a cursor. -/
def push (t : Token) (cursor : Cursor) (l : Lexer) : Lexer :=
  { l with cursor, tokens := t :: l.tokens, count := l.count + 1 }

/-- Pushes the token of a mark of so many characters. -/
def mark (width : Nat) (t : Token) (l : Lexer) : Lexer := l.push t (l.cursor.advance width)

/-! ## Blanks -/

/-- Whether a key may begin behind blanks, comments and line breaks, and the number of
these: one may on a new line.  A tab is a blank only where no key may begin. -/
def blanks (inBrackets : Bool) : (mayBeginKey inComment : Bool) → Nat → List Char → Bool × Nat
  | mayBeginKey, _, n, [] => (mayBeginKey, n)
  | mayBeginKey, inComment, n, c :: rest =>
      if isBreak c then blanks inBrackets (mayBeginKey || !inBrackets) false (n + 1) rest
      else if inComment || c == ' ' || (c == '\t' && (inBrackets || !mayBeginKey)) then
        blanks inBrackets mayBeginKey inComment (n + 1) rest
      else if c == '#' then blanks inBrackets mayBeginKey true (n + 1) rest
      else (mayBeginKey, n)

/-- Passes over what stands before a token. -/
def toToken (l : Lexer) : Lexer :=
  let (mayBeginKey, n) := blanks l.inBrackets l.mayBeginKey false 0 l.cursor.rest
  { l with cursor := l.cursor.advance n, mayBeginKey }

/-! ## Blocks -/

/-- Opens a block at a column that is further in than the blocks around it. -/
def openBlock (column number : Nat) (t : Token) (l : Lexer) : Lexer :=
  if !l.inBrackets && l.margin ≤ column then
    { l.insert number t with blocks := column :: l.blocks }
  else l

/-- Closes the blocks that satisfy `isOver`. -/
def closeBlocks (isOver : Nat → Bool) (l : Lexer) : Lexer :=
  if l.inBrackets then l
  else
    let ended := l.blocks.takeWhile isOver
    { l with
      blocks := l.blocks.dropWhile isOver
      tokens := ended.map (fun _ => .blockEnd) ++ l.tokens
      count := l.count + ended.length }

/-! ## Keys -/

/-- No key is longer than this. -/
def maxKeyLength : Nat := 1024

/-- Whether a key that began at a place would have ended before the cursor. -/
def isStale (c : Cursor) (place : KeyPlace) : Bool :=
  place.line < c.line || place.index + maxKeyLength < c.index

/-- Gives up the innermost place; none if a key is missing at it. -/
def dropKey? (l : Lexer) : Option Lexer :=
  if l.key.any KeyPlace.isRequired then none else some { l with key := none }

/-- Gives up the innermost place if it is stale.  The others are once they are the
innermost. -/
def dropStaleKey? (l : Lexer) : Option Lexer :=
  if l.key.any (isStale l.cursor) then l.dropKey? else some l

/-- Keeps the cursor as a place where a key may begin. -/
def saveKey? (l : Lexer) : Option Lexer :=
  if l.mayBeginKey then do
    let c := l.cursor
    let isRequired := !l.inBrackets && l.blocks.head? == some c.column
    let place := ⟨l.count, c.index, c.line, c.column, isRequired⟩
    return { ← l.dropKey? with key := some place }
  else some l

/-! ## Tokens -/

/-- Reads a mark at the beginning of a line that ends all blocks. -/
def markLine? (l : Lexer) : Option Lexer := do
  return { ← (l.closeBlocks fun _ => true).dropKey? with mayBeginKey := false }

/-- Reads an opening bracket, which may begin a key. -/
def openBracket? (t : Token) (l : Lexer) : Option Lexer := do
  let l ← l.saveKey?
  return { l.mark 1 t with key := none, outerKeys := l.key :: l.outerKeys, mayBeginKey := true }

def closeBracket? (t : Token) (l : Lexer) : Option Lexer := do
  let l ← l.dropKey?
  return { l.mark 1 t with
    key := l.outerKeys.head?.getD none, outerKeys := l.outerKeys.tail, mayBeginKey := false }

/-- Reads a dash or a question mark.  Outside of brackets it opens a block, if there
is none at its column, and must stand where a key might begin. -/
def entryMark? (block t : Token) (mayBeginKey : Bool) (l : Lexer) : Option Lexer := do
  if !l.inBrackets && !l.mayBeginKey then none
  else
    let l ← (l.openBlock l.cursor.column l.count block).dropKey?
    return { l.mark 1 t with mayBeginKey }

/-- Reads a colon.  A key that may have begun has, and otherwise the key is empty or
was marked. -/
def valueMark? (l : Lexer) : Option Lexer :=
  match l.key with
  | some place =>
      let l := (l.insert place.number .key).openBlock place.column place.number .mappingBlock
      some { l.mark 1 .value with key := none, mayBeginKey := false }
  | none => l.entryMark? .mappingBlock .value (!l.inBrackets)

/-- Reads a token with which a key may begin, and which ends at a cursor. -/
def word? (t : Token) (cursor : Cursor) (l : Lexer) : Option Lexer := do
  return { (← l.saveKey?).push t cursor with mayBeginKey := false }

/-- Reads an anchor or, with `isAlias`, the name of one.  An anchor gets the number of
different names before it. -/
def anchor? (isAlias : Bool) (cs : List Char) (l : Lexer) : Option Lexer := do
  let (name, rest) ← anchorName? cs
  let cursor := l.cursor.goTo rest
  if isAlias then l.word? (.alias (← l.anchors.lookup name)) cursor
  else
    let number := l.anchors.length
    let others := l.anchors.filter fun a => a.1 != name
    { l with anchors := (name, number) :: others }.word? (.anchor number) cursor

def tag? (cs : List Char) (l : Lexer) : Option Lexer := do
  let (t, rest) ← Yaml.tag? cs
  if endsWord rest || (l.inBrackets && rest.head? == some ',') then
    l.word? t (l.cursor.goTo rest)
  else none

def scalarToken (text : List Char) (style : Style) : Token := .scalar (String.ofList text) style

def quoted? (read : List Char → Option Written) (cs : List Char) (l : Lexer) : Option Lexer := do
  let w ← read cs
  l.word? (scalarToken w.text .quoted) (l.cursor.advance (w.size + 1))

/-- Reads a block of lines, behind which a key may begin. -/
def block? (folds : Bool) (cs : List Char) (l : Lexer) : Option Lexer := do
  let l ← l.dropKey?
  let (text, rest) ← Yaml.block? folds l.margin cs
  let token := scalarToken text (if folds then .folded else .literal)
  return { l.push token (l.cursor.goTo rest) with mayBeginKey := true }

/-- Reads a plain text.  A key may begin behind it if its line has ended. -/
def plain? (l : Lexer) : Option Lexer := do
  let p ← Yaml.plain? l.inBrackets l.margin l.cursor.rest
  let cursor := l.cursor.advance p.size
  return { ← l.word? (scalarToken p.text .plain) cursor with mayBeginKey := p.endsLine }

/-- Reads the token that begins at the cursor with `c`. -/
def read? (c : Char) (rest : List Char) (l : Lexer) : Option Lexer :=
  let atLineStart := l.cursor.column == 0
  let isAlone := endsWord rest
  if atLineStart && c == '%' then do
    let l ← l.markLine?
    let (t, rest) ← directive? rest
    return l.push t (l.cursor.goTo rest)
  else if atLineStart && isMarker (c :: rest) then
    l.markLine?.map (mark 3 (if c = '-' then .documentStart else .documentEnd))
  else match c with
    | '[' => l.openBracket? .leftBracket
    | '{' => l.openBracket? .leftBrace
    | ']' => l.closeBracket? .rightBracket
    | '}' => l.closeBracket? .rightBrace
    | ',' => l.dropKey?.map fun l => { l.mark 1 .comma with mayBeginKey := true }
    | '*' => l.anchor? true rest
    | '&' => l.anchor? false rest
    | '!' => l.tag? rest
    | '\'' => l.quoted? singleQuoted? rest
    | '"' => l.quoted? doubleQuoted? rest
    | c =>
        if c == '-' && isAlone then l.entryMark? .sequenceBlock .item true
        else if c == '?' && (l.inBrackets || isAlone) then
          l.entryMark? .mappingBlock .key (!l.inBrackets)
        else if c == ':' && (l.inBrackets || isAlone) then l.valueMark?
        else if (c == '|' || c == '>') && !l.inBrackets then l.block? (c == '>') rest
        else if startsPlain l.inBrackets (c :: rest) then l.plain?
        else none

/-- Reads all tokens from the cursor on. -/
def finish? : Nat → Lexer → Option (List Token)
  | 0, _ => none
  | fuel + 1, l => do
      let l ← l.toToken.dropStaleKey?
      match l.cursor.rest with
      | [] =>
          let l ← (l.closeBlocks fun _ => true).dropKey?
          return l.tokens.reverse
      | c :: rest =>
          let l := l.closeBlocks (l.cursor.column < ·)
          finish? fuel (← l.read? c rest)

end Lexer

/-- The tokens of a document. -/
def tokensOf? (text : String) : Option (List Token) := do
  let cursor ← Cursor.ofText? text
  Lexer.finish? (cursor.rest.length + 1) { cursor }

end PulseSequencer.Yaml
