import PulseSequencer.Number.Reader
import PulseSequencer.Text.Blank

/-
# PulseSequencer.Document.Xml.Tag -- tags, attributes, references and namespaces

A tag keeps its attributes as they stand until somebody asks for them, so that a
tag that nobody looks at may have malformed ones.  References are replaced only in
values that are read as texts.
-/

namespace PulseSequencer.Xml

set_option autoImplicit false

/-- The blanks between names; all others are ordinary characters. -/
def isBlank (c : Char) : Bool := c == ' ' || c == '\t' || c == '\r' || c == '\n'

def trimLeft (cs : List Char) : List Char := cs.dropWhile isBlank

def trimRight (cs : List Char) : List Char := (cs.reverse.dropWhile isBlank).reverse

theorem length_trimLeft_le (cs : List Char) : (trimLeft cs).length ≤ cs.length :=
  (List.dropWhile_suffix _).length_le

/-! ## References -/

/-- The character that a reference stands for. -/
def referenced? (name : List Char) : Option Char :=
  match name with
  | '#' :: 'x' :: digits =>
      if digits ≠ [] ∧ digits.all fun c => c.isDigit || ('a' ≤ c.toLower && c.toLower ≤ 'f') then
        valid? (digits.foldl (fun n c =>
          16 * n + (if c.isDigit then c.toNat - 48 else c.toLower.toNat - 87)) 0)
      else none
  | '#' :: digits => (Number.readNat? digits).bind valid?
  | name => ([("lt", '<'), ("gt", '>'), ("amp", '&'), ("apos", '\''), ("quot", '"')].lookup
      (String.ofList name))
where
  /-- A code point other than zero that is a character. -/
  valid? (code : Nat) : Option Char :=
    if code ≠ 0 ∧ code.isValidChar then some (Char.ofNat code) else none

/-- Replaces all references; none if one is unknown or has no end. -/
def expand? (cs : List Char) : Option (List Char) :=
  match cs with
  | [] => some []
  | '&' :: rest =>
      match _cut : Text.splitFirst? (· = ';') rest with
      | none => none
      | some (name, after) =>
          match referenced? name, expand? after with
          | some c, some done => some (c :: done)
          | _, _ => none
  | c :: rest => (expand? rest).map (c :: ·)
termination_by cs.length
decreasing_by
  · have := Text.length_splitFirst? _cut
    simp only [List.length_cons]; omega
  · simp

/-! ## Names -/

/-- What stands before the first colon of a name that has one. -/
def qualifier? (name : List Char) : Option (List Char) :=
  (Text.splitFirst? (· = ':') name).map Prod.fst

/-- What stands behind the first colon of a name, or the whole name. -/
def localName (name : List Char) : List Char :=
  ((Text.splitFirst? (· = ':') name).map Prod.snd).getD name

/-! ## Attributes -/

/-- An attribute as it stands. -/
structure Attribute where
  name : List Char
  value : List Char
deriving Repr, DecidableEq

/-- The name by which an attribute is asked for: its local one, but the whole name
if it binds a namespace or belongs to the language of documents itself. -/
def Attribute.key (a : Attribute) : String :=
  String.ofList (if [some "xmlns", some "xml"].contains ((qualifier? a.name).map String.ofList)
    then a.name else localName a.name)

/-- The attribute that a text begins with, and what follows it.  A name has at least
one character and goes up to an equals sign or a blank. -/
def firstAttribute? : List Char → Option (Attribute × List Char)
  | [] => none
  | c :: rest =>
      let inName (c : Char) : Bool := !(c == '=' || isBlank c)
      match trimLeft (rest.dropWhile inName) with
      | '=' :: rest' =>
          match trimLeft rest' with
          | quote :: text =>
              if quote = '"' ∨ quote = '\'' then
                (Text.splitFirst? (· = quote) text).map fun (value, after) =>
                  (⟨c :: rest.takeWhile inName, value⟩, after)
              else none
          | [] => none
      | _ => none

theorem length_firstAttribute? {cs after : List Char} {a : Attribute}
    (h : firstAttribute? cs = some (a, after)) : after.length < cs.length := by
  unfold firstAttribute? at h
  split at h
  · simp at h
  · rename_i c rest
    simp only at h
    split at h
    · rename_i rest' hrest
      split at h
      · rename_i quote text htext
        split at h
        · simp only [Option.map_eq_some_iff, Prod.mk.injEq] at h
          obtain ⟨⟨value, tail⟩, hcut, _, rfl⟩ := h
          have h1 := Text.length_splitFirst? hcut
          have h2 := length_trimLeft_le rest'
          have h3 := length_trimLeft_le (rest.dropWhile fun c => !(c == '=' || isBlank c))
          have h4 := (List.dropWhile_suffix (l := rest) fun c => !(c == '=' || isBlank c)).length_le
          rw [htext] at h2
          rw [hrest] at h3
          simp only [List.length_cons] at h2 h3 ⊢
          omega
        · simp at h
      · simp at h
    · simp at h

/-- All attributes up to the first malformed one, and whether there is none such. -/
def attributesOf (cs : List Char) : List Attribute × Bool :=
  if trimLeft cs = [] then ([], true)
  else
    match _first : firstAttribute? (trimLeft cs) with
    | none => ([], false)
    | some (a, after) =>
        let (more, complete) := attributesOf after
        (a :: more, complete)
termination_by cs.length
decreasing_by
  have := length_firstAttribute? _first
  have := length_trimLeft_le cs
  omega

/-! ## Tags -/

structure Tag where
  name : List Char
  /-- The attributes up to the first malformed one. -/
  attributes : List Attribute
  /-- Whether those are all. -/
  isComplete : Bool
deriving Repr, DecidableEq

namespace Tag

/-- The tag with a name and attributes behind the first blank. -/
def ofContent (content : List Char) : Tag :=
  let inName (c : Char) : Bool := !isBlank c
  let (attributes, isComplete) := attributesOf (content.dropWhile inName)
  ⟨content.takeWhile inName, attributes, isComplete⟩

def localName (t : Tag) : String := String.ofList (Xml.localName t.name)

/-- The attributes; none if one is malformed or a name comes twice. -/
def attributes? (t : Tag) : Option (List Attribute) :=
  if t.isComplete ∧ (t.attributes.map Attribute.name).Nodup then some t.attributes else none

end Tag

/-! ## Namespaces -/

/-- The qualifiers that are bound to namespaces, the innermost and latest first. -/
abbrev Scope := List (String × String)

namespace Tag

/-- The qualifiers that a tag binds, the latest first. -/
def bindings (t : Tag) : Scope :=
  (t.attributes.filterMap fun a =>
    if (qualifier? a.name).map String.ofList = some "xmlns" then
      some (String.ofList (Xml.localName a.name), String.ofList a.value)
    else none).reverse

/-- Whether a tag binds a reserved qualifier to another namespace, or another
qualifier to a reserved namespace. -/
def misbinds (t : Tag) : Bool :=
  let language := "http://www.w3.org/XML/1998/namespace"
  let bindingOfNames := "http://www.w3.org/2000/xmlns/"
  t.bindings.any fun (qualifier, space) =>
    qualifier == "xmlns" ||
      (if qualifier == "xml" then space != language
        else space == language || space == bindingOfNames)

/-- Whether a tag says that its element is nothing. -/
def isNil (scope : Scope) (t : Tag) : Bool :=
  t.attributes.any fun a =>
    Xml.localName a.name == "nil".toList &&
      ((qualifier? a.name).bind fun q => scope.lookup (String.ofList q)) ==
        some "http://www.w3.org/2001/XMLSchema-instance" &&
      ["1", "true"].contains (String.ofList a.value)

end Tag

end PulseSequencer.Xml
