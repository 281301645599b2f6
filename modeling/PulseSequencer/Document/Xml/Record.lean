import PulseSequencer.Document.Xml.Element

/-
# PulseSequencer.Document.Xml.Record -- elements that are read by names

A record is an element whose values stand in attributes and whose parts stand in
children, all found by their local names.  A value may also stand in a child that is
named like the attribute with an at sign before it.  Children of other names are
passed over, and so are texts, but these must have a value.
-/

namespace PulseSequencer.Xml

set_option autoImplicit false

structure Record where
  tag : Tag
  attributes : List Attribute
  contents : List Content
  /-- The namespaces that are bound in it. -/
  scope : Scope

/-- The name of a child that stands for an attribute. -/
def childName (key : String) : String := "@" ++ key

/-- Whether nothing is wrong with an element that nobody reads.  Only what it begins
with is looked at. -/
def Element.isPassable (e : Element) : Bool :=
  !e.tag.misbinds && match e.contents with
    | .text value :: _ => value.isSome
    | .element tag _ :: _ => !tag.misbinds
    | [] => true

/-- The record of an element with values under `keys` and parts under `names`. -/
def Element.record? (outer : Scope) (keys names : List String) (e : Element) : Option Record := do
  let attributes ← e.tag.attributes?
  let known := keys.map childName ++ names
  let isFine (content : Content) : Bool := match content with
    | .text value => value.isSome
    | .element tag contents => known.contains tag.localName || (Element.mk tag contents).isPassable
  if e.tag.misbinds ∨ !e.contents.all isFine then none
  else return ⟨e.tag, attributes, e.contents, e.tag.bindings ++ outer⟩

/-! ## Values -/

inductive Value where
  /-- The text of an attribute with its references. -/
  | inTag (written : List Char)
  /-- The text of a child. -/
  | inChild (text : String)
deriving Repr, DecidableEq

namespace Value

/-- An unsigned number below `2^bits`; references are not replaced. -/
def number? (bits : Nat) : Value → Option Nat
  | inTag written => Number.readWord? bits written
  | inChild text => Number.readWord? bits text.toList

def text? : Value → Option String
  | inTag written => (expand? written).map String.ofList
  | inChild text => some text

end Value

/-- The text of an element that contains nothing else. -/
def Element.text? (e : Element) : Option String :=
  match e.contents with
  | [] => some ""
  | [.text value] => if e.tag.misbinds then none else value
  | _ => none

namespace Record

def children (r : Record) : List Element := r.contents.filterMap Content.element?

/-- The value of a key, if it has one; no key may have two. -/
def value? (key : String) (r : Record) : Option (Option Value) :=
  let attributes := r.attributes.filter fun a => a.key == key
  let children := r.children.filter fun e => e.tag.localName == childName key
  match attributes, children with
  | [], [] => some none
  | [a], [] => some (some (.inTag a.value))
  | [], [e] => e.text?.map fun text => some (.inChild text)
  | _, _ => none

def number? (bits : Nat) (key : String) (r : Record) : Option Nat := do
  (← (← r.value? key)).number? bits

def text? (key : String) (r : Record) : Option String := do (← (← r.value? key)).text?

/-- The text of a key that may be missing; an attribute without a text counts as missing. -/
def optionalText? (key : String) (r : Record) : Option (Option String) := do
  match ← r.value? key with
  | none | some (.inTag []) => return none
  | some value => value.text?.map some

/-! ## Parts -/

/-- The children of a name, which stand together and have the same full name; no
text may follow one of them. -/
def adjacent? (name : String) (r : Record) : Option (List Element) :=
  let isNamed (content : Content) : Bool :=
    (content.element?.map fun e => e.tag.localName) == some name
  match r.contents.dropWhile fun content => !isNamed content with
  | .element tag contents :: rest =>
      let isSame (content : Content) : Bool :=
        (content.element?.map fun e => e.tag.name) == some tag.name
      let others := rest.dropWhile isSame
      match others with
      | .text _ :: _ => none
      | _ =>
          if others.any isNamed then none
          else some ((.element tag contents :: rest.takeWhile isSame).filterMap Content.element?)
  | _ => some []

/-- All parts of a name. -/
def list? {α : Type} (read : Scope → Element → Option α) (name : String) (r : Record) :
    Option (List α) := do (← r.adjacent? name).mapM (read r.scope)

/-- Whether a child is nothing, because its tag or the one around it says so.  The
namespaces that a child of its own binds at its beginning count already. -/
def isNilChild (r : Record) (e : Element) : Bool :=
  let inner := match e.contents with
    | .element tag _ :: _ => tag.bindings
    | _ => []
  let scope := inner ++ e.tag.bindings ++ r.scope
  r.tag.isNil scope || e.tag.isNil scope

/-- The one part of a name, if there is one. -/
def optional? {α : Type} (read : Scope → Element → Option α) (name : String) (r : Record) :
    Option (Option α) :=
  match r.children.filter fun e => e.tag.localName == name with
  | [] => some none
  | [e] =>
      if r.isNilChild e then if e.isPassable then some none else none
      else (read r.scope e).map some
  | _ => none

/-- The one part of a name. -/
def part? {α : Type} (read : Scope → Element → Option α) (name : String) (r : Record) : Option α :=
  match r.children.filter fun e => e.tag.localName == name with
  | [e] => read r.scope e
  | _ => none

end Record

end PulseSequencer.Xml
