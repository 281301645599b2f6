import PulseSequencer.Document.Yaml.Node

/-
# PulseSequencer.Document.Yaml.Record -- mappings that are read by names

A record is a mapping whose keys are texts.  All nodes may be given by aliases, but a
short document may not repeat nodes without end.  The tag of a node counts only where
a text might be nothing or a number.
-/

namespace PulseSequencer.Yaml

set_option autoImplicit false

/-- The full tag of one of the common types. -/
def commonTag (name : String) : String := "tag:yaml.org,2002:" ++ name

namespace Scalar

/-- Whether nothing is written, or nothing but properties. -/
def isAbsent (s : Scalar) : Bool := s.style == .plain && s.text == ""

/-- Whether a text is one of the names of nothing. -/
def isNullName (s : Scalar) : Bool := ["~", "null", "Null", "NULL"].contains s.text

/-- The text if it may be a number: written plainly, or as lines with the tag. -/
def numeral? (tag : String) (s : Scalar) : Option (List Char) :=
  if s.style = .plain ∨ (s.style = .literal ∧ s.tag = some (commonTag tag)) then some s.text.toList
  else none

/-- The text, or nothing if the plain text says so.  Under a tag only the one of nothing
makes it nothing, and then the text must be a name of that. -/
def optionalText? (s : Scalar) : Option (Option String) :=
  if s.style ≠ .plain then some (some s.text)
  else match s.tag with
    | none => some (if s.isAbsent || s.isNullName then none else some s.text)
    | some tag =>
        if tag ≠ commonTag "null" then some (some s.text)
        else if s.isNullName then some none
        else none

end Scalar

/-! ## Reading -/

/-- Reading from a document, which counts the aliases that are followed. -/
abbrev Reading := ReaderT Document (StateT Nat Option)

/-- How many aliases may be followed for each node of a document. -/
def repetitionLimit : Nat := 100

/-- The node that an alias repeats; another node itself. -/
def resolve : Node → Reading Node
  | .alias anchor => do
      let d ← read
      let count ← get
      if count < repetitionLimit * d.size then
        set (count + 1)
        d.anchored.lookup anchor
      else failure
  | node => return node

/-- Reads a document from its root on. -/
def Document.read? {α : Type} (reading : Node → Reading α) (d : Document) : Option α :=
  ((reading d.root).run d).run' 0

def scalar (node : Node) : Reading Scalar := do
  match ← resolve node with
  | .scalar _ s => return s
  | _ => failure

def text (node : Node) : Reading String := return (← scalar node).text

def optionalText (node : Node) : Reading (Option String) := do (← scalar node).optionalText?

/-- The items of a sequence; nothing is a sequence without items. -/
def items {α : Type} (reading : Node → Reading α) (node : Node) : Reading (List α) := do
  match ← resolve node with
  | .sequence _ items => items.mapM reading
  | .scalar _ s => if s.isAbsent then return [] else failure
  | _ => failure

/-! ## Records -/

/-- The entries of a record in their order. -/
structure Record where
  entries : List (String × Node)

/-- The record of a mapping; nothing is one without entries. -/
def record (node : Node) : Reading Record := do
  match ← resolve node with
  | .mapping _ entries => return ⟨← entries.mapM fun (key, value) => return (← text key, value)⟩
  | .scalar _ s => if s.isAbsent then return ⟨[]⟩ else failure
  | _ => failure

namespace Record

/-- The value of a key that comes at most once. -/
def value? (key : String) (r : Record) : Option (Option Node) :=
  match r.entries.filter fun e => e.1 == key with
  | [] => some none
  | [(_, value)] => some (some value)
  | _ => none

/-- Reads the value of a key. -/
def field {α : Type} (reading : Node → Reading α) (key : String) (r : Record) : Reading α := do
  let value ← r.value? key
  reading (← value)

/-- Reads the value of a key that may be missing. -/
def fieldOr {α : Type} (reading : Node → Reading α) (default : α) (key : String) (r : Record) :
    Reading α := do
  match ← r.value? key with
  | none => return default
  | some value => reading value

end Record

end PulseSequencer.Yaml
