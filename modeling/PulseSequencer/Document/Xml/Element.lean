import PulseSequencer.Document.Xml.Tag

/-
# PulseSequencer.Document.Xml.Element -- documents of nested elements

A document is read up to the end of its first element, its root.  Comments,
instructions and declarations are passed over.  The texts between two tags are one
text without the blanks at its ends; where nothing but blanks stands there is none.
-/

namespace PulseSequencer.Xml

set_option autoImplicit false

/-! ## Pieces -/

/-- What a document consists of. -/
inductive Piece where
  | opening (tag : Tag)
  | closing (name : List Char)
  /-- An element without content. -/
  | empty (tag : Tag)
  /-- A text with references. -/
  | text (written : List Char)
  /-- A text in which nothing has a meaning. -/
  | literal (content : List Char)
  | aside
deriving Repr, DecidableEq

/-- Cuts at the first place where `mark` stands, which is dropped. -/
def splitAt? (mark : List Char) : List Char → Option (List Char × List Char)
  | [] => none
  | c :: rest =>
      match Text.after? mark (c :: rest) with
      | some after => some ([], after)
      | none => (splitAt? mark rest).map fun (before, after) => (c :: before, after)

/-- Cuts at the end of a tag; one in quotes does not count. -/
def splitTag? (quote : Option Char) : List Char → Option (List Char × List Char)
  | [] => none
  | c :: rest =>
      if quote = none ∧ c = '>' then some ([], rest)
      else
        let quote := match quote with
          | some q => if c = q then none else some q
          | none => if c = '"' ∨ c = '\'' then some c else none
        (splitTag? quote rest).map fun (before, after) => (c :: before, after)

/-- Cuts at the end of a declaration in which `depth` others are open. -/
def splitDeclaration? (depth : Nat) : List Char → Option (List Char × List Char)
  | [] => none
  | c :: rest =>
      if c = '>' ∧ depth = 0 then some ([], rest)
      else
        let depth := if c = '>' then depth - 1 else if c = '<' then depth + 1 else depth
        (splitDeclaration? depth rest).map fun (before, after) => (c :: before, after)

/-- Whether a declaration, without its exclamation mark, tells the type of a document. -/
def isDocumentType (declaration : List Char) : Bool :=
  (declaration.take 7).map Char.toLower == "doctype".toList &&
    (declaration.drop 7).any fun c => !isBlank c

/-- The piece that begins behind an opening angle bracket, and what follows it. -/
def markup? (cs : List Char) : Option (Piece × List Char) :=
  match cs with
  | '!' :: '-' :: '-' :: rest => (splitAt? "-->".toList rest).map fun (_, after) => (.aside, after)
  | '!' :: '[' :: rest => do
      let (marked, after) ← splitAt? "]]>".toList rest
      return (.literal (← Text.after? "CDATA[".toList marked), after)
  | '!' :: rest => do
      let (declaration, after) ← splitDeclaration? 0 rest
      if isDocumentType declaration then return (.aside, after) else none
  | '?' :: '>' :: _ => none
  | '?' :: rest => (splitAt? "?>".toList rest).map fun (_, after) => (.aside, after)
  | '/' :: rest => do
      let (name, after) ← splitTag? none rest
      return (.closing (if name.all isBlank then name else trimRight name), after)
  | cs => do
      let (content, after) ← splitTag? none cs
      match content.getLast? with
      | some '/' => return (.empty (.ofContent content.dropLast), after)
      | _ => return (.opening (.ofContent content), after)

/-- The first piece of a document, and what follows it. -/
def firstPiece? (cs : List Char) : Option (Piece × List Char) :=
  match cs with
  | [] => none
  | '<' :: rest => markup? rest
  | cs => some (.text (cs.takeWhile (· ≠ '<')), cs.dropWhile (· ≠ '<'))

/-! ## Texts -/

/-- A part of a text: with references, or without a meaning. -/
inductive Passage where
  | written (text : List Char)
  | literal (text : List Char)
deriving Repr, DecidableEq

namespace Passage

def isBlank : Passage → Bool
  | written text => text.all Xml.isBlank
  | literal _ => false

/-- What a passage says; none if it has a reference to nothing. -/
def value? : Passage → Option (List Char)
  | written text => expand? text
  | literal text => some text

def trimLeft : Passage → Passage
  | written text => written (Xml.trimLeft text)
  | literal text => literal text

def trimRight : Passage → Passage
  | written text => written (Xml.trimRight text)
  | literal text => literal text

/-- The passages of a text without the blanks at its ends. -/
def trimmed (passages : List Passage) : List Passage :=
  match passages.dropWhile isBlank with
  | [] => []
  | first :: rest =>
      let passages := first.trimLeft :: rest
      passages.dropLast ++ (passages.getLast?.map trimRight).toList

end Passage

/-! ## Elements -/

inductive Content where
  | element (tag : Tag) (contents : List Content)
  /-- A text; without a value if it has a reference to nothing. -/
  | text (value : Option String)
deriving Repr

/-- An element and all that it contains. -/
structure Element where
  tag : Tag
  contents : List Content
deriving Repr

def Content.element? : Content → Option Element
  | element tag contents => some ⟨tag, contents⟩
  | text _ => none

/-- An element that is not closed yet. -/
structure OpenElement where
  tag : Tag
  /-- What it contains so far, the newest first. -/
  contents : List Content := []
  /-- The passages since the last tag, the newest first. -/
  passages : List Passage := []

namespace OpenElement

def addPassage (p : Passage) (e : OpenElement) : OpenElement :=
  { e with passages := p :: e.passages }

/-- Makes one text of the passages since the last tag. -/
def closeText (e : OpenElement) : OpenElement :=
  match Passage.trimmed e.passages.reverse with
  | [] => { e with passages := [] }
  | passages =>
      let value := (passages.mapM Passage.value?).map fun texts => String.ofList texts.flatten
      { e with contents := .text value :: e.contents, passages := [] }

def addElement (child : Element) (e : OpenElement) : OpenElement :=
  let e := e.closeText
  { e with contents := .element child.tag child.contents :: e.contents }

def close (e : OpenElement) : Element := ⟨e.tag, e.closeText.contents.reverse⟩

end OpenElement

/-- What is read of a document: the elements that are open, the innermost first, or
the root. -/
inductive Progress where
  | within (elements : List OpenElement)
  | complete (root : Element)

/-- Adds an element to the one it stands in; without one it is the root. -/
def attach (e : Element) : List OpenElement → Progress
  | [] => .complete e
  | inner :: outer => .within (inner.addElement e :: outer)

/-- Adds a piece.  No text may stand before the root. -/
def advance? (stack : List OpenElement) : Piece → Option Progress
  | .opening tag =>
      match stack with
      | [] => some (.within [{ tag }])
      | inner :: outer => some (.within ({ tag } :: inner.closeText :: outer))
  | .empty tag => some (attach ⟨tag, []⟩ stack)
  | .closing name =>
      match stack with
      | inner :: outer => if inner.tag.name = name then some (attach inner.close outer) else none
      | [] => none
  | .text written =>
      match stack with
      | inner :: outer => some (.within (inner.addPassage (.written written) :: outer))
      | [] => if written.all isBlank then some (.within []) else none
  | .literal content =>
      match stack with
      | inner :: outer => some (.within (inner.addPassage (.literal content) :: outer))
      | [] => none
  | .aside => some (.within stack)

/-- Reads pieces until the root is complete. -/
def rootFrom? : Nat → List OpenElement → List Char → Option Element
  | 0, _, _ => none
  | fuel + 1, stack, cs => do
      let (piece, rest) ← firstPiece? cs
      match ← advance? stack piece with
      | .complete root => some root
      | .within stack => rootFrom? fuel stack rest

/-- The root of a document.  A byte order mark may precede all. -/
def parse? (text : String) : Option Element :=
  let cs := match text.toList with
    | '\ufeff' :: rest => rest
    | cs => cs
  rootFrom? (cs.length + 1) [] cs

end PulseSequencer.Xml
