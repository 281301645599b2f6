import PulseSequencer.Document.Yaml.Lexer

/-
# PulseSequencer.Document.Yaml.Node -- documents of scalars, sequences and mappings

A document has one node, which may contain others.  A node with an anchor can be
repeated by aliases; these stay in the document, so that it is finite even where a
node repeats one that it is in.
-/

namespace PulseSequencer.Yaml

set_option autoImplicit false

structure Scalar where
  text : String
  style : Style
  tag : Option String := none
deriving Repr, DecidableEq

/-- What stands where nothing is written. -/
def Scalar.absent : Scalar := ⟨"", .plain, none⟩

inductive Node where
  | alias (anchor : Nat)
  | scalar (anchor : Option Nat) (scalar : Scalar)
  | sequence (anchor : Option Nat) (items : List Node)
  | mapping (anchor : Option Nat) (entries : List (Node × Node))
deriving Repr, Inhabited

def Node.absent : Node := .scalar none .absent

/-! ## Tags -/

/-- What the handles of tags stand for; the first entry of a handle counts. -/
abbrev Handles := List (String × String)

def defaultHandles : Handles := [("!", "!"), ("!!", "tag:yaml.org,2002:")]

/-- The full tag of a handle and a suffix. -/
def fullTag? (handles : Handles) (handle suffix : String) : Option String :=
  if handle = "" then some suffix else (handles.lookup handle).map (· ++ suffix)

/-- An anchor and a full tag in either order, and what follows them. -/
def properties? (handles : Handles) :
    List Token → Option ((Option Nat × Option String) × List Token)
  | .anchor a :: .tag h s :: rest | .tag h s :: .anchor a :: rest =>
      (fullTag? handles h s).map fun tag => ((some a, some tag), rest)
  | .anchor a :: rest => some ((some a, none), rest)
  | .tag h s :: rest => (fullTag? handles h s).map fun tag => ((none, some tag), rest)
  | rest => some ((none, none), rest)

/-! ## Nodes -/

def endsItem (t : Token) : Bool := t matches .item | .blockEnd

def endsBareItem (t : Token) : Bool := t matches .item | .key | .value | .blockEnd

def endsEntry (t : Token) : Bool := t matches .key | .value | .blockEnd

def endsFlowItem (t : Token) : Bool := t matches .comma | .rightBracket

def endsFlowEntry (t : Token) : Bool := t matches .comma | .rightBrace

/-- The node that only an anchor or a tag is written of. -/
def absent? (anchor : Option Nat) (tag : Option String) (rest : List Token) :
    Option (Node × List Token) :=
  if anchor.isSome ∨ tag.isSome then
    some (.scalar anchor { Scalar.absent with tag := tag }, rest)
  else none

/-- What follows the comma before an item that is not the first. -/
def separated? (isFirst : Bool) : List Token → Option (List Token)
  | .comma :: rest => some (if isFirst then .comma :: rest else rest)
  | tokens => if isFirst then some tokens else none

mutual

/-- A node, and what follows it.  A block may begin only where `inBlock`, and one of
items without a block of its own only where `isBare`. -/
def node? (handles : Handles) :
    Nat → (inBlock isBare : Bool) → List Token → Option (Node × List Token)
  | 0, _, _, _ => none
  | _, _, _, .alias a :: rest => some (.alias a, rest)
  | fuel + 1, inBlock, isBare, tokens => do
      let ((anchor, tag), tokens) ← properties? handles tokens
      match tokens with
      | .scalar text style :: rest =>
          return (.scalar anchor ⟨text, style, tag.filter (· ≠ "!")⟩, rest)
      | .leftBracket :: rest => flowSequence? handles fuel anchor true [] rest
      | .leftBrace :: rest => flowMapping? handles fuel anchor true [] rest
      | .item :: _ =>
          if isBare then bareSequence? handles fuel anchor [] tokens else absent? anchor tag tokens
      | .sequenceBlock :: rest =>
          if inBlock then blockSequence? handles fuel anchor [] rest else absent? anchor tag tokens
      | .mappingBlock :: rest =>
          if inBlock then blockMapping? handles fuel anchor [] rest else absent? anchor tag tokens
      | tokens => absent? anchor tag tokens

/-- A node, or nothing before a token that satisfies `ends`. -/
def nodeOrAbsent? (handles : Handles) :
    Nat → (inBlock isBare : Bool) → (ends : Token → Bool) → List Token → Option (Node × List Token)
  | 0, _, _, _, _ => none
  | fuel + 1, inBlock, isBare, ends, tokens =>
      if tokens.head?.any ends then some (.absent, tokens)
      else node? handles fuel inBlock isBare tokens

/-- Reads items up to the end of their block; those so far come the newest first. -/
def blockSequence? (handles : Handles) :
    Nat → Option Nat → List Node → List Token → Option (Node × List Token)
  | fuel + 1, anchor, items, .item :: rest => do
      let (item, rest) ← nodeOrAbsent? handles fuel true false endsItem rest
      blockSequence? handles fuel anchor (item :: items) rest
  | _, anchor, items, .blockEnd :: rest => some (.sequence anchor items.reverse, rest)
  | _, _, _, _ => none

/-- Reads items that have no block of their own. -/
def bareSequence? (handles : Handles) :
    Nat → Option Nat → List Node → List Token → Option (Node × List Token)
  | 0, _, _, _ => none
  | fuel + 1, anchor, items, .item :: rest => do
      let (item, rest) ← nodeOrAbsent? handles fuel true false endsBareItem rest
      bareSequence? handles fuel anchor (item :: items) rest
  | _, anchor, items, rest => some (.sequence anchor items.reverse, rest)

/-- Reads entries up to the end of their block. -/
def blockMapping? (handles : Handles) :
    Nat → Option Nat → List (Node × Node) → List Token → Option (Node × List Token)
  | fuel + 1, anchor, entries, .key :: rest => do
      let (key, rest) ← nodeOrAbsent? handles fuel true true endsEntry rest
      let (value, rest) ← match rest with
        | .value :: rest => nodeOrAbsent? handles fuel true true endsEntry rest
        | rest => some (.absent, rest)
      blockMapping? handles fuel anchor ((key, value) :: entries) rest
  | _, anchor, entries, .blockEnd :: rest => some (.mapping anchor entries.reverse, rest)
  | _, _, _, _ => none

/-- Reads items up to a bracket, with commas between them; one may follow the last.
An entry is a mapping of its own. -/
def flowSequence? (handles : Handles) :
    Nat → Option Nat → (isFirst : Bool) → List Node → List Token → Option (Node × List Token)
  | 0, _, _, _, _ => none
  | _, anchor, _, items, .rightBracket :: rest => some (.sequence anchor items.reverse, rest)
  | fuel + 1, anchor, isFirst, items, tokens => do
      match ← separated? isFirst tokens with
      | .rightBracket :: rest => return (.sequence anchor items.reverse, rest)
      | .key :: rest =>
          let (key, rest) ← match rest with
            | .value :: rest | .comma :: rest | .rightBracket :: rest => some (Node.absent, rest)
            | rest => node? handles fuel false false rest
          let (value, rest) ← match rest with
            | .value :: rest => nodeOrAbsent? handles fuel false false endsFlowItem rest
            | rest => some (.absent, rest)
          flowSequence? handles fuel anchor false (.mapping none [(key, value)] :: items) rest
      | tokens =>
          let (item, rest) ← node? handles fuel false false tokens
          flowSequence? handles fuel anchor false (item :: items) rest

/-- Reads entries up to a brace, with commas between them; one may follow the last.
What is no entry is a key without a value. -/
def flowMapping? (handles : Handles) :
    Nat → Option Nat → (isFirst : Bool) → List (Node × Node) → List Token →
      Option (Node × List Token)
  | 0, _, _, _, _ => none
  | _, anchor, _, entries, .rightBrace :: rest => some (.mapping anchor entries.reverse, rest)
  | fuel + 1, anchor, isFirst, entries, tokens => do
      match ← separated? isFirst tokens with
      | .rightBrace :: rest => return (.mapping anchor entries.reverse, rest)
      | .key :: rest =>
          let ends (t : Token) : Bool := t == .value || endsFlowEntry t
          let (key, rest) ← nodeOrAbsent? handles fuel false false ends rest
          let (value, rest) ← match rest with
            | .value :: rest => nodeOrAbsent? handles fuel false false endsFlowEntry rest
            | rest => some (.absent, rest)
          flowMapping? handles fuel anchor false ((key, value) :: entries) rest
      | tokens =>
          let (key, rest) ← node? handles fuel false false tokens
          flowMapping? handles fuel anchor false ((key, .absent) :: entries) rest

end

/-! ## Documents -/

/-- The handles that directives add, and what follows these.  No directive may be
repeated, and only two versions are known. -/
def directives? (hasVersion : Bool) (handles : Handles) :
    List Token → Option (Handles × List Token)
  | .version major minor :: rest =>
      if hasVersion ∨ major ≠ 1 ∨ (minor ≠ 1 ∧ minor ≠ 2) then none
      else directives? true handles rest
  | .handle name start :: rest =>
      if (handles.lookup name).isSome then none
      else directives? hasVersion ((name, start) :: handles) rest
  | rest => some (handles, rest)

/-- Whether nothing stands between the start of a document and this token. -/
def endsEmptyDocument (t : Token) : Bool :=
  t matches .version _ _ | .handle _ _ | .documentStart | .documentEnd

/-- The node of a document whose tokens these are.  Directives need the mark of its
start, and behind it only marks of its end may stand. -/
def rootOf? (tokens : List Token) : Option Node := do
  let (added, body) ← directives? false [] tokens
  let handles := added ++ defaultHandles
  let fuel := 3 * tokens.length + 3
  let (root, rest) ← match body with
    | .documentStart :: body =>
        if body = [] then some (Node.absent, [])
        else nodeOrAbsent? handles fuel true false endsEmptyDocument body
    | body =>
        if body.length = tokens.length then node? handles fuel true false body else none
  if rest.all (· == .documentEnd) then return root else none

mutual

/-- The nodes with anchors in a node, in the order in which they begin. -/
def Node.anchored : Node → List (Nat × Node)
  | .alias _ => []
  | .scalar anchor s => anchor.toList.map fun a => (a, .scalar anchor s)
  | .sequence anchor items =>
      (anchor.toList.map fun a => (a, .sequence anchor items)) ++ anchoredItems items
  | .mapping anchor entries =>
      (anchor.toList.map fun a => (a, .mapping anchor entries)) ++ anchoredEntries entries

def anchoredItems : List Node → List (Nat × Node)
  | [] => []
  | item :: items => item.anchored ++ anchoredItems items

def anchoredEntries : List (Node × Node) → List (Nat × Node)
  | [] => []
  | (key, value) :: entries => key.anchored ++ value.anchored ++ anchoredEntries entries

end

mutual

/-- The number of nodes in a node and of the ends of its sequences and mappings. -/
def Node.size : Node → Nat
  | .alias _ | .scalar _ _ => 1
  | .sequence _ items => 2 + sizeOfItems items
  | .mapping _ entries => 2 + sizeOfEntries entries

def sizeOfItems : List Node → Nat
  | [] => 0
  | item :: items => item.size + sizeOfItems items

def sizeOfEntries : List (Node × Node) → Nat
  | [] => 0
  | (key, value) :: entries => key.size + value.size + sizeOfEntries entries

end

structure Document where
  root : Node
  size : Nat
  /-- The nodes with anchors, the last first. -/
  anchored : List (Nat × Node)
deriving Repr

def Document.parse? (text : String) : Option Document := do
  let root ← rootOf? (← tokensOf? text)
  return ⟨root, root.size, root.anchored.reverse⟩

end PulseSequencer.Yaml
